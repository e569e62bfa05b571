import KeywordScope.Binding.Refusing
import KeywordScope.Main
import KeywordScope.Session
import KeywordScope.Proofs.Step
import KeywordScope.Proofs.Binding.Granted
import KeywordScope.Proofs.Registry.Entries
import KeywordScope.Proofs.Registry.Runs
import KeywordScope.Proofs.Scope.Nesting
import KeywordScope.Proofs.Scope.Runs
import KeywordScope.Proofs.Grammar.Proper
import KeywordScope.Proofs.Registry.Growth
import KeywordScope.Proofs.Scope.Registration
import KeywordScope.Proofs.Registry.Spelled
import KeywordScope.Proofs.Scope.Lifo
import KeywordScope.Proofs.Invocation.Conditions
import KeywordScope.Proofs.Invocation.Use
import KeywordScope.Proofs.Invocation.Operations
import KeywordScope.Proofs.Scope.Balance
import KeywordScope.Proofs.Invocation.Balance
import KeywordScope.Proofs.Invocation.Transparency
import KeywordScope.Proofs.Scope.Beneath
import KeywordScope.Proofs.Invocation.Ambiguity
import KeywordScope.Proofs.Text.Joined
import KeywordScope.Proofs.Registry.Forest
import KeywordScope.Proofs.Registry.Issued
import KeywordScope.Proofs.Grammar.Trees
import KeywordScope.Proofs.Declaration.Building
import KeywordScope.Proofs.Declaration.Forest
import KeywordScope.Proofs.Declaration.Atomic
import KeywordScope.Proofs.Source.Extent
import KeywordScope.Proofs.Script.Passage
import KeywordScope.Proofs.Script.Reading
import KeywordScope.Proofs.Script.Node
import KeywordScope.Proofs.Script.Faithful
import KeywordScope.Proofs.Script.Written
import KeywordScope.Proofs.Script.Kept
import KeywordScope.Proofs.Text.Letters
import KeywordScope.Proofs.Grammar.WellFormed
import KeywordScope.Proofs.Grammar.Types
import KeywordScope.Proofs.Grammar.Exact
import KeywordScope.Proofs.Grammar.Sketch
import KeywordScope.Proofs.Grammar.RoundTrip
import KeywordScope.Proofs.Binding.Stacks
import KeywordScope.Proofs.Binding.Unsteady
import KeywordScope.Proofs.Registry.Edits
import KeywordScope.Proofs.Registry.Durable
import KeywordScope.Proofs.Registry.Sound
import KeywordScope.Proofs.Registry.Rooted
import KeywordScope.Proofs.Registry.Catalog
import KeywordScope.Proofs.Registry.Representation
import KeywordScope.Proofs.Registry.Agreement
import KeywordScope.Proofs.Registry.Tidy
import KeywordScope.Proofs.Registry.Binds
import KeywordScope.Proofs.Registry.Removal
import KeywordScope.Proofs.Scope.Bindings
import KeywordScope.Proofs.Scope.Foreign
import KeywordScope.Proofs.Scope.Unbinding
import KeywordScope.Proofs.Scope.Standalones
import KeywordScope.Proofs.Value.Classes
import KeywordScope.Proofs.Invocation.Record
import KeywordScope.Proofs.Declaration.Bodies
import KeywordScope.Proofs.Invocation.Maps
import KeywordScope.Proofs.Script.Places
import KeywordScope.Proofs.Script.Rounds
import KeywordScope.Proofs.Registry.Failures
import KeywordScope.Proofs.Declaration.Located
import KeywordScope.Proofs.Script.Shifted
import KeywordScope.Proofs.Script.Placed
import KeywordScope.Proofs.Script.Lexemes
import KeywordScope.Proofs.Script.Cut
import KeywordScope.Proofs.Script.Edges
import KeywordScope.Proofs.Script.Blocks
import KeywordScope.Proofs.Script.Sequence
import KeywordScope.Proofs.Declaration.Independent
import KeywordScope.Proofs.Declaration.Caseless
import KeywordScope.Proofs.Scope.Guards
import KeywordScope.Proofs.Invocation.Nested
import KeywordScope.Proofs.Invocation.RootCause
import KeywordScope.Proofs.Grammar.TypeWords
import KeywordScope.Proofs.Declaration.Separators
import KeywordScope.Proofs.Scope.Resolution
import KeywordScope.Proofs.Scope.Resets
import KeywordScope.Proofs.Scope.Undone
import KeywordScope.Proofs.Registry.Single
import KeywordScope.Proofs.Script.Literals
import KeywordScope.Proofs.Scope.Removals
import KeywordScope.Proofs.Invocation.Unnamed
import KeywordScope.Proofs.Script.Continued
import KeywordScope.Proofs.Invocation.Sites
import KeywordScope.Proofs.Grammar.Cached
import KeywordScope.Proofs.Binding.Purge
import KeywordScope.Proofs.Binding.Places
import KeywordScope.Proofs.Registry.Roots
import KeywordScope.Proofs.Registry.Shadowed
import KeywordScope.Proofs.Grammar.Conflicts
import KeywordScope.Proofs.Declaration.Foreign
import KeywordScope.Proofs.Source.Positions
