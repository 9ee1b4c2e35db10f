import ExprCalculus.Expr.Batch
import ExprCalculus.Expr.Gradient
import ExprCalculus.Algebra.Form
import ExprCalculus.Algebra.Fraction
import ExprCalculus.Expr.Inspect
import ExprCalculus.Session
import ExprCalculus.Journal
import ExprCalculus.Proofs.FirstOrder
import ExprCalculus.Proofs.Lexing
import ExprCalculus.Proofs.Grammar
import ExprCalculus.Proofs.NearestDouble
import ExprCalculus.Proofs.Literal
import ExprCalculus.Proofs.RoundTrip
import ExprCalculus.Proofs.Nesting
import ExprCalculus.Proofs.Diagnosis
import ExprCalculus.Proofs.StackGrammar
import ExprCalculus.Proofs.Padding
import ExprCalculus.Proofs.Agreement
import ExprCalculus.Proofs.Justification
import ExprCalculus.Proofs.Descent
import ExprCalculus.Proofs.BitPattern
import ExprCalculus.Proofs.Sameness
import ExprCalculus.Proofs.SecondOrder
import ExprCalculus.Proofs.FormMeaning
import ExprCalculus.Proofs.Correspondence
import ExprCalculus.Proofs.Orderless
import ExprCalculus.Differentiate
import ExprCalculus.Proofs.Rowwise
import ExprCalculus.Proofs.Construction
import ExprCalculus.Proofs.Console
import ExprCalculus.Proofs.Differentiation
import ExprCalculus.Proofs.DepthCounter
import ExprCalculus.Proofs.FieldExpression
import ExprCalculus.Proofs.PolynomialRing
import ExprCalculus.Proofs.TermReading
import ExprCalculus.Algebra.Verifier
import ExprCalculus.Proofs.FractionMeaning
import ExprCalculus.Proofs.RationalTerm
import ExprCalculus.Proofs.AlgebraSystem
import ExprCalculus.Proofs.FormalDerivative
import ExprCalculus.Proofs.Layout
import ExprCalculus.Proofs.Interleaving
import ExprCalculus.Proofs.Continuation
import ExprCalculus.Proofs.Respacing
import ExprCalculus.Proofs.Traversal
import ExprCalculus.Proofs.NodeSequence
import ExprCalculus.Proofs.Material
import ExprCalculus.Proofs.Dependence
import ExprCalculus.Proofs.NumeralGrammar
import ExprCalculus.Proofs.CorrectRounding
import ExprCalculus.Proofs.NumberWord
import ExprCalculus.Proofs.Verbosity
import ExprCalculus.Proofs.AffineGradient
import ExprCalculus.Proofs.Dispersion
import ExprCalculus.Proofs.Census
import ExprCalculus.Proofs.Provenance
import ExprCalculus.Proofs.NestedCalls
import ExprCalculus.Proofs.DerivativeDepth
