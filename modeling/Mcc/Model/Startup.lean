import Mcc.Model.Config
import Mcc.Model.ConfFile

/-!
# `Model.Startup` — the manager as the configuration file makes it

What `MCCRunner::run` does with the file up to the resource manager: `ConfigParser::Parse`, and `MCCResourceManager::init`
with `initResource` and `initAgentMessenger`. The sockets of the messengers are left out.
-/

namespace Mcc

open Xml

variable {Q : Type} [PriorityQueue Q User]

namespace ResourceManager

/-- `"MCC"` -/
def mccSection : Text := "MCC".toList

/-- The strings `initResource` asks for. -/
def resourceConfig (config : ConfigParser) : ResourceConfig where
  cameras := config.getConfigString mccSection "Cameras".toList (some "1".toList)
  monitors := config.getConfigString mccSection "Monitors".toList (some "1".toList)
  trunks := config.getConfigString mccSection "Trunks".toList (some "1-1".toList)

/-- What `initAgentMessenger` sets; and the address `mClient->Start` is called with, if it is. -/
def initAgentMessenger (config : ConfigParser) (s : ResourceManager Q) : Option (ResourceManager Q × Option Text) := do
  let level ← config.getConfigInt mccSection "Level".toList 0
  let matrixId ← config.getConfigInt mccSection "MatrixID".toList 0
  let s := { s with mLevel := level, mMatrixId := matrixId }
  let parentip := config.getConfigString mccSection "ParentNodeIP".toList (some [])
  return (s, if level ≠ 0 then parentip else none)

/-- `init`, on a manager as the constructor leaves it. -/
def init (junk : Int) (config : ConfigParser) : Option (ResourceManager Q × Option Text) := do
  let s ← initResource junk (resourceConfig config) (configured junk junk junk [] [] [])
  initAgentMessenger config s

end ResourceManager

/-- `run` up to there; the code of a failure is that of `run`. -/
def startup (junk : Int) (file : Option Text) :
    Except ConfFile.ParseFailure (Option (Int × Option (ResourceManager Q × Option Text))) := do
  let (rc, config) ← ConfigParser.parse file
  if rc < 0 then return some (-1, none)
  else return (ResourceManager.init junk config).map fun s => (0, some s)

end Mcc
