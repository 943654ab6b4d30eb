import QuerySteps.Main
import QuerySteps.Plan.Workbench
import QuerySteps.Proofs.Join.FromClause
import QuerySteps.Proofs.Join.Pushdown
import QuerySteps.Proofs.Planning
import QuerySteps.Proofs.Plan.Simplification
import QuerySteps.Proofs.Plan.Unfolding
import QuerySteps.Proofs.Plan.Templates
import QuerySteps.Proofs.Plan.Masking
import QuerySteps.Proofs.CheckUse
import QuerySteps.Proofs.Join.EarlyFilters
import QuerySteps.Proofs.Join.FilterTargets
import QuerySteps.Proofs.Plan.Conditions
import QuerySteps.Proofs.Readability.Arithmetic
import QuerySteps.Proofs.Readability.Columns
import QuerySteps.Proofs.Readability.Formula
import QuerySteps.Proofs.Readability.Predicate
import QuerySteps.Proofs.Syntax.Parentheses
import QuerySteps.Proofs.Translate.Parentheses
import QuerySteps.Proofs.NumberedLines
import QuerySteps.Proofs.Rows.Select
import QuerySteps.Proofs.Surroundings
import QuerySteps.Proofs.CaseFolding
import QuerySteps.Proofs.CommandLine.Outcome
import QuerySteps.Proofs.Syntax.Renaming
import QuerySteps.Proofs.Translate.Renaming
import QuerySteps.Proofs.Skeleton.Single
import QuerySteps.Proofs.Skeleton.Flow
import QuerySteps.Proofs.Plan.Sessions
import QuerySteps.Proofs.Translate.DistinctCalls
import QuerySteps.Proofs.Translate.Qualifiers
import QuerySteps.Proofs.Plan.OnePass
import QuerySteps.Proofs.Reduction.Levels
import QuerySteps.Proofs.Reduction.Details
