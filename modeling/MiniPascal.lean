import MiniPascal.Main
import MiniPascal.Proofs.Blame
import MiniPascal.Proofs.Boundary
import MiniPascal.Proofs.BrokenOutput
import MiniPascal.Proofs.Comments
import MiniPascal.Proofs.Concatenation
import MiniPascal.Proofs.Continuation
import MiniPascal.Proofs.Corruption
import MiniPascal.Proofs.Cost
import MiniPascal.Proofs.Extension
import MiniPascal.Proofs.FirstFault
import MiniPascal.Proofs.Frame
import MiniPascal.Proofs.KindCheck
import MiniPascal.Proofs.Legacy
import MiniPascal.Proofs.Length
import MiniPascal.Proofs.Logging
import MiniPascal.Proofs.Omission
import MiniPascal.Proofs.Parting
import MiniPascal.Proofs.Printing
import MiniPascal.Proofs.Progress
import MiniPascal.Proofs.Pulling
import MiniPascal.Proofs.Relabelling
import MiniPascal.Proofs.Replacement
import MiniPascal.Proofs.Rescan
import MiniPascal.Proofs.Shape
import MiniPascal.Proofs.Slicing
import MiniPascal.Proofs.Tiling
import MiniPascal.Proofs.Truthfulness
