import Argand.Proofs.BlankSeparation
import Argand.Proofs.BoundedValues
import Argand.Proofs.BoundedWork
import Argand.Proofs.BracketErrors
import Argand.Proofs.CameraRange
import Argand.Proofs.CaseInsensitivity
import Argand.Proofs.ErrorPlaces
import Argand.Proofs.FiniteSurface
import Argand.Proofs.FormulaParts
import Argand.Proofs.FrameColours
import Argand.Proofs.FreshSurface
import Argand.Proofs.GrammarDerived
import Argand.Proofs.GridRefinement
import Argand.Proofs.HueWheel
import Argand.Proofs.IntegerPower
import Argand.Proofs.OneShot
import Argand.Proofs.ParameterFrame
import Argand.Proofs.PlotOutcome
import Argand.Proofs.PolygammaDerivatives
import Argand.Proofs.PreviewBudget
import Argand.Proofs.RoundTrip
import Argand.Proofs.ScannedNumbers
import Argand.Proofs.TokenConservation
import Argand.Proofs.TokenPartition
import Argand.Proofs.TreeLimits
import Argand.Proofs.TrimmedFormula
import Argand.Proofs.VariableRenaming
import Argand.Proofs.WrappedSizes
import Argand.Proofs.ZetaPole
import Argand.Window
