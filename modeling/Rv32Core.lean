import Rv32Core.Encoders
import Rv32Core.Adders.Ppa
import Rv32Core.Checkpoint.SaveState
import Rv32Core.Checkpoint.EmitCode
import Rv32Core.L1d.Progress
import Rv32Core.L1d.BadAddr
import Rv32Core.L2.Dirty
import Rv32Core.Front.ReturnStack
import Rv32Core.Exec.CarrySave
import Rv32Core.Back.InOrder
import Rv32Core.Pipe.Cosim
