import ZeroSet.Main
import ZeroSet.Stored.Scene
import ZeroSet.Proofs.BranchAndPrune
import ZeroSet.Expr.Literal
import ZeroSet.Func.Call
import ZeroSet.Proofs.RayParameter
import ZeroSet.Proofs.DualNumbers
import ZeroSet.Proofs.Gradient
import ZeroSet.Proofs.ChainRule
import ZeroSet.Proofs.SymbolicDerivative
import ZeroSet.Proofs.Termination
import ZeroSet.Proofs.CycleGuard
import ZeroSet.Proofs.Simplification
import ZeroSet.Proofs.ToCustom
import ZeroSet.Proofs.Frame
import ZeroSet.Proofs.SurvivingLeaves
import ZeroSet.Proofs.ClosestHit
import ZeroSet.Proofs.RationalFields
import ZeroSet.Proofs.NearestSurface
import ZeroSet.Proofs.ValueKinds
import ZeroSet.Proofs.Reachability
import ZeroSet.Proofs.SurfaceNames
import ZeroSet.Proofs.Attribution
import ZeroSet.Proofs.FartherBounds
import ZeroSet.Proofs.Assembly
import ZeroSet.Proofs.FormulaText
import ZeroSet.Proofs.JsonText
import ZeroSet.Proofs.SceneGuards
import ZeroSet.Proofs.StoredForms
import ZeroSet.Proofs.SphereRoutines
import ZeroSet.Proofs.FirstNearest
import ZeroSet.Proofs.FeedingForward
import ZeroSet.Proofs.Substitution
import ZeroSet.Proofs.FunctionShapes
import ZeroSet.Proofs.Explorations
import ZeroSet.Proofs.HalvingDepth
import ZeroSet.Proofs.GradientRoutes
import ZeroSet.Proofs.TupleArithmetic
import ZeroSet.Proofs.VectorFunctions
import ZeroSet.Proofs.LightFromBehind
import ZeroSet.Proofs.RodSlabs
import ZeroSet.Proofs.Shrinking
import ZeroSet.Proofs.InvalidBuiltins
import ZeroSet.Proofs.FiniteLiterals
import ZeroSet.Proofs.ConstantFolding
import ZeroSet.Proofs.IntervalHulls
import ZeroSet.Proofs.SplitProgress
