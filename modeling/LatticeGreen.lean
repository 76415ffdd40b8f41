import LatticeGreen.Cell.Fractional
import LatticeGreen.Distant.Unchecked
import LatticeGreen.Main
import LatticeGreen.Nearby.Unchecked
import LatticeGreen.Proofs.BlownUpSums
import LatticeGreen.Proofs.InnerCells
import LatticeGreen.Report
import LatticeGreen.Proofs.SplittingBounds
import LatticeGreen.Proofs.Outcomes
import LatticeGreen.Proofs.SingularRetry
import LatticeGreen.Proofs.InnerCorrection
import LatticeGreen.Proofs.ComplementaryError
import LatticeGreen.Proofs.GaussianSources
import LatticeGreen.Proofs.ExponentialCutoff
import LatticeGreen.Proofs.SumSymmetry
import LatticeGreen.Proofs.ReciprocalDuality
import LatticeGreen.Proofs.Answers
import LatticeGreen.Proofs.BlochSymmetry
import LatticeGreen.Proofs.MirroredKernels
import LatticeGreen.Proofs.Reflection
import LatticeGreen.Proofs.RenamedSums
import LatticeGreen.Proofs.Inversion
import LatticeGreen.Proofs.EvanescentOrders
import LatticeGreen.Proofs.UnsplitSum
import LatticeGreen.Proofs.BasisOrientation
import LatticeGreen.Proofs.ConjugatedKernels
import LatticeGreen.Proofs.Conjugation
import LatticeGreen.Proofs.ShiftedOrders
import LatticeGreen.Proofs.PartialDerivatives
import LatticeGreen.Proofs.ShortRangeDerivatives
import LatticeGreen.Proofs.PlaneOrderDerivatives
import LatticeGreen.Proofs.LineTransformDerivatives
import LatticeGreen.Proofs.BesselIntegral
import LatticeGreen.Proofs.LineOrderDerivatives
import LatticeGreen.Proofs.TightenedSettings
import LatticeGreen.Proofs.FreeSpaceDerivatives
import LatticeGreen.Proofs.SourceExpansion
import LatticeGreen.Proofs.TransformEquation
import LatticeGreen.Proofs.ZoneMeasures
import LatticeGreen.Proofs.SignificantSlots
import LatticeGreen.Proofs.ScaledSums
import LatticeGreen.Proofs.AdditiveShells
import LatticeGreen.Proofs.CheckedBases
import LatticeGreen.Proofs.RefusedRequests
import LatticeGreen.Proofs.LineBloch
import LatticeGreen.Proofs.SignedZeros
import LatticeGreen.Proofs.OutgoingSide
import LatticeGreen.Proofs.LentzConvergents
import LatticeGreen.Proofs.SeriesExpansions
import LatticeGreen.Proofs.Broadcasting
import LatticeGreen.ScaledErfc.Arrays
import LatticeGreen.Proofs.ScaledProducts
