import FilterQuery.Decimal.Text
import FilterQuery.Decimal.Fraction
import FilterQuery.Json.Text
import FilterQuery.SortKey
import FilterQuery.FieldName
import FilterQuery.Text.Distance
import FilterQuery.Condition
import FilterQuery.Definition.Equality
import FilterQuery.Filter.InPlace
import FilterQuery.Filter.Json
import FilterQuery.Filter.Equality
import FilterQuery.Definition.Draft
import FilterQuery.FindQuery
import FilterQuery.Param.Binding
import FilterQuery.Engine.Basic
import FilterQuery.Record
import FilterQuery.Registry.Catalog
import FilterQuery.Yaml.Stream
import FilterQuery.Proofs.Conditions.Depth
import FilterQuery.Proofs.Schema.Loading
import FilterQuery.Proofs.Engine.Query
import FilterQuery.Proofs.Schema.Linking
import FilterQuery.Proofs.Engine.Batches
import FilterQuery.Proofs.Engine.Rearrangement
import FilterQuery.Proofs.Engine.Sources
import FilterQuery.Proofs.Engine.Sorting
import FilterQuery.Proofs.Engine.Faults
import FilterQuery.Proofs.Engine.Hints
import FilterQuery.Proofs.Schema.Single
import FilterQuery.Proofs.Text.Segments
import FilterQuery.Proofs.Filter.Pruning
import FilterQuery.Proofs.Filter.JsonForm
import FilterQuery.Proofs.Param.Shape
import FilterQuery.Proofs.Definition.Refusal
import FilterQuery.Proofs.Schema.Naming
import FilterQuery.Proofs.Schema.Keys
import FilterQuery.Proofs.Schema.Settings
import FilterQuery.Proofs.Definition.FieldNames
import FilterQuery.Proofs.Param.Descent
import FilterQuery.Proofs.Predicate.Documents
import FilterQuery.Proofs.Conditions.Link
import FilterQuery.Proofs.Param.Repetition
import FilterQuery.Proofs.Schema.Suggestion
import FilterQuery.Proofs.Text.Items
import FilterQuery.Proofs.Param.SortKeys
import FilterQuery.Proofs.Param.Integers
import FilterQuery.Proofs.Predicate.Moving
