import DeclaredMethods.Main
import DeclaredMethods.Proofs.Building.Numbers
import DeclaredMethods.Proofs.Collection.Merging
import DeclaredMethods.Proofs.Document.Isolation
import DeclaredMethods.Proofs.Document.ReadBack
import DeclaredMethods.Proofs.Ending.Wholeness
import DeclaredMethods.Proofs.Evaluation.Normalization
import DeclaredMethods.Proofs.Generation.Order
import DeclaredMethods.Proofs.Lookup.Independence
import DeclaredMethods.Proofs.Lookup.Qualification
import DeclaredMethods.Proofs.Order.Calls
import DeclaredMethods.Proofs.Parsing.Overflow
import DeclaredMethods.Proofs.RoundTrip.TypeNames
import DeclaredMethods.Proofs.Scoping.Composition
import DeclaredMethods.Proofs.Scoping.Lexical
import DeclaredMethods.Proofs.Scoping.Stack
import DeclaredMethods.Proofs.Validity.Acceptance
