import Pyrite.RegIf.Basic
import Pyrite.RegIf.Theorems.Bounds
import Pyrite.RegIf.Theorems.Store
import Pyrite.RegBlock.Basic
import Pyrite.RegBlock.Theorems.Chain
import Pyrite.RegBlock.Theorems.Failure
import Pyrite.RegBlock.Theorems.Find
import Pyrite.RegBlock.Theorems.Lifecycle
import Pyrite.Flash.Ctrl
import Pyrite.Flash.Spi
import Pyrite.Flash.Frame
import Pyrite.Flash.Theorems.Program
import Pyrite.Flash.Theorems.Erase
import Pyrite.Flash.Wire
import Pyrite.Flash.Theorems.Wire
import Pyrite.Flash.Discipline
import Pyrite.Flash.Theorems.Discipline
import Pyrite.Flash.Nor
import Pyrite.Flash.Device
import Pyrite.Flash.Theorems.Device
import Pyrite.Flash.Theorems.Driver
import Pyrite.Flash.Theorems.Nor
import Pyrite.Flash.Theorems.Refinement
import Pyrite.Flash.Theorems.Session
