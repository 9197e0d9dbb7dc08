import ObjectQuery.Catalog.Document
import ObjectQuery.Compiler
import ObjectQuery.Schema
import ObjectQuery.Proofs.Filter.Induction
import ObjectQuery.Proofs.Filter.Parts
import ObjectQuery.Proofs.Filter.Tests
import ObjectQuery.Proofs.Step.Agreement
import ObjectQuery.Proofs.Step.Course
import ObjectQuery.Proofs.Step.Parallel
import ObjectQuery.Proofs.Step.Run
import ObjectQuery.Proofs.Compiler.Registry
import ObjectQuery.Proofs.Compiler.Run
import ObjectQuery.Proofs.Filter.Arrangement
import ObjectQuery.Proofs.Filter.Change
import ObjectQuery.Proofs.Filter.Evaluation
import ObjectQuery.Proofs.Emission.Induction
import ObjectQuery.Proofs.Emission.Parts
import ObjectQuery.Proofs.Emission.Steps
import ObjectQuery.Proofs.Emission.Leaves
import ObjectQuery.Proofs.Emission.Extension
import ObjectQuery.Proofs.Emission.Clauses
import ObjectQuery.Proofs.Deletion.Silence
import ObjectQuery.Proofs.Deletion.Emission
import ObjectQuery.Proofs.Deletion.Unrestricted
import ObjectQuery.Proofs.Parameters.ColonFree
import ObjectQuery.Proofs.Parameters.Aliases
import ObjectQuery.Proofs.Parameters.Placeholders
import ObjectQuery.Proofs.Parameters.Rendering
import ObjectQuery.Proofs.Parameters.Assembly
import ObjectQuery.Proofs.Parameters.Numbering
import ObjectQuery.Proofs.Parameters.Placement
import ObjectQuery.Proofs.Reading.Expression
import ObjectQuery.Proofs.Reading.Meaning
import ObjectQuery.Proofs.Reading.Emission
import ObjectQuery.Proofs.Reading.Predicates
import ObjectQuery.Proofs.Reading.WhereClause
import ObjectQuery.Proofs.Matching.Drafts
import ObjectQuery.Proofs.Matching.Predicates
import ObjectQuery.Proofs.Matching.Selects
import ObjectQuery.Proofs.Operands.Blank
import ObjectQuery.Proofs.Operands.Secrecy
import ObjectQuery.Proofs.IgnoreCase.Wishes
import ObjectQuery.Proofs.IgnoreCase.Compilation
import ObjectQuery.Proofs.Having.Groups
import ObjectQuery.Proofs.Having.Composites
import ObjectQuery.Proofs.Having.Parts
import ObjectQuery.Proofs.Having.Readable
import ObjectQuery.Proofs.Having.Clause
import ObjectQuery.Proofs.Text.Casing
import ObjectQuery.Proofs.Declarations.Names
import ObjectQuery.Proofs.Declarations.Joins
import ObjectQuery.Proofs.Declarations.Namings
import ObjectQuery.Proofs.Declarations.Advances
import ObjectQuery.Proofs.Declarations.Emission
import ObjectQuery.Proofs.Declarations.Rendering
import ObjectQuery.Proofs.Declarations.Compilation
import ObjectQuery.Proofs.Context.Paths
import ObjectQuery.Proofs.Context.Aliases
import ObjectQuery.Proofs.Context.Emission
import ObjectQuery.Proofs.Scoping.Statement
import ObjectQuery.Proofs.Scoping.Aliases
import ObjectQuery.Proofs.Scoping.Leaves
import ObjectQuery.Proofs.Scoping.Emission
import ObjectQuery.Proofs.Scoping.Compilation
import ObjectQuery.Proofs.Negation.Signs
import ObjectQuery.Proofs.Negation.Emission
import ObjectQuery.Proofs.Negation.Division
import ObjectQuery.Proofs.Negation.DoubleNegation
import ObjectQuery.Proofs.Standing.Aliases
import ObjectQuery.Proofs.Standing.Drafts
import ObjectQuery.Proofs.Standing.Predicates
import ObjectQuery.Proofs.Standing.Selects
import ObjectQuery.Proofs.Optimizer.Equalities
import ObjectQuery.Proofs.Optimizer.Emission
import ObjectQuery.Proofs.Optimizer.Compilation
import ObjectQuery.Proofs.Optimizer.EqualityGroups
import ObjectQuery.Proofs.Optimizer.Meaning
import ObjectQuery.Proofs.Deletion.Preview
import ObjectQuery.Proofs.InnerJoins.Truth
import ObjectQuery.Proofs.InnerJoins.Trails
import ObjectQuery.Proofs.InnerJoins.Compilation
import ObjectQuery.Proofs.Theta.Aliases
import ObjectQuery.Proofs.Theta.Visits
import ObjectQuery.Proofs.Theta.Emission
import ObjectQuery.Proofs.Theta.Resolution
import ObjectQuery.Proofs.Step.Endings
import ObjectQuery.Proofs.Paths.Ways
import ObjectQuery.Proofs.Paths.Threads
import ObjectQuery.Proofs.Paths.Histories
import ObjectQuery.Proofs.Renumbering.Trees
import ObjectQuery.Proofs.Renumbering.Texts
import ObjectQuery.Proofs.Renumbering.Drafts
import ObjectQuery.Proofs.Renumbering.Predicates
import ObjectQuery.Proofs.Renumbering.Visits
import ObjectQuery.Proofs.Subqueries.Queries
import ObjectQuery.Proofs.Subqueries.Selects
import ObjectQuery.Proofs.Subqueries.Emission
import ObjectQuery.Proofs.Subqueries.Compilation
import ObjectQuery.Proofs.Filter.Reordering
import ObjectQuery.Proofs.Step.Coincidence
import ObjectQuery.Proofs.Mapping.Lookups
import ObjectQuery.Proofs.Qualified.Paths
import ObjectQuery.Proofs.Qualified.Filters
import ObjectQuery.Proofs.Qualified.Drafts
import ObjectQuery.Proofs.Qualified.Predicates
import ObjectQuery.Proofs.Qualified.Compilation
import ObjectQuery.Proofs.Number.Shortest
import ObjectQuery.Proofs.Json.Texts
import ObjectQuery.Proofs.Json.Numbers
import ObjectQuery.Proofs.Json.RoundTrip
import ObjectQuery.Proofs.Json.Trees
import ObjectQuery.Proofs.Json.Slots
import ObjectQuery.Proofs.Json.Laws
import ObjectQuery.Proofs.Value.RoundTrip
import ObjectQuery.Proofs.Catalog.RoundTrip
import ObjectQuery.Proofs.Filter.RoundTrip
import ObjectQuery.Proofs.Folding.Compilation
import ObjectQuery.Proofs.Folding.Conditions
import ObjectQuery.Proofs.Folding.Emission
import ObjectQuery.Proofs.Folding.Operands
import ObjectQuery.Proofs.Options.RoundTrip
import ObjectQuery.Proofs.Mapping.Declarations
import ObjectQuery.Proofs.Mapping.IndexFacts
import ObjectQuery.Proofs.Mapping.Annotations
import ObjectQuery.Proofs.Schema.Loading
import ObjectQuery.Proofs.Schema.Catalogs
import ObjectQuery.Proofs.Schema.Merging
import ObjectQuery.Proofs.Patterns.Matching
import ObjectQuery.Proofs.Patterns.Escaping
import ObjectQuery.Proofs.Text.Eszett
import ObjectQuery.Proofs.Context.Operations
import ObjectQuery.Proofs.Context.Visits
import ObjectQuery.Proofs.Paths.Strides
import ObjectQuery.Proofs.Paths.Joining
import ObjectQuery.Proofs.Paths.OwnJoins
import ObjectQuery.Proofs.Paths.Again
import ObjectQuery.Proofs.Paths.Crossings
import ObjectQuery.Proofs.Paths.Enclosing
import ObjectQuery.Proofs.Paths.Seclusion
import ObjectQuery.Proofs.Paths.Shapes
import ObjectQuery.Proofs.Paths.Classes
import ObjectQuery.Proofs.Catalog.Ancestry
import ObjectQuery.Proofs.JoinTypes.Sites
import ObjectQuery.Proofs.JoinTypes.Emission
import ObjectQuery.Proofs.Paths.Unresolvable
import ObjectQuery.Proofs.Step.Failures
import ObjectQuery.Proofs.Lists.Equalities
import ObjectQuery.Proofs.Lists.Membership
import ObjectQuery.Proofs.Lists.ContainsAll
import ObjectQuery.Proofs.Lists.Slices
import ObjectQuery.Proofs.Lists.Sizes
import ObjectQuery.Proofs.Clauses.Joins
import ObjectQuery.Proofs.Clauses.OrderColumns
import ObjectQuery.Proofs.Exclusion.Collections
import ObjectQuery.Proofs.Exclusion.NestedSelects
import ObjectQuery.Proofs.Exclusion.BackReferences
