import Mcc.Correctness.ConfSave
import Mcc.Correctness.Config
import Mcc.Model.Startup

/-!
# `Correctness.Startup` — from the file to the manager

The lines of a file say what the keys of its sections are; where none of them does harm, that is what the manager is made
of: `startup_of_file`. So it starts in one of the states the rest of the model starts from.
-/

namespace Mcc

open ConfFile IntOp Xml

variable {Q : Type} [PriorityQueue Q User]

/-- What a key of section `MCC` is in a store, or what stands for it. -/
def mccValue (s : Store) (key standard : Text) : Text :=
  ((s ResourceManager.mccSection).bind fun sec => sec key).getD standard

/-- The resources that the keys of a store say. -/
structure FileSays (s : Store) (cameras monitors : List ℕ) (trunks : List (ℕ × ℕ)) (level matrixId : Int) : Prop where
  cameras : mccValue s "Cameras".toList "1".toList = idList cameras
  monitors : mccValue s "Monitors".toList "1".toList = idList monitors
  trunks : mccValue s "Trunks".toList "1-1".toList = pairList trunks
  level : atoi (mccValue s "Level".toList "0".toList) = some level
  matrixId : atoi (mccValue s "MatrixID".toList "0".toList) = some matrixId

theorem lookup_eq_store (config : IniConfig) (name key : Text) :
    config.lookup name key = (config.store name).bind fun sec => sec key := by
  rw [IniConfig.lookup, IniConfig.store_apply]
  cases config.getSection name with
  | none => rfl
  | some sec => rfl

namespace ConfigParser

/-- A string of the configuration is one of its store. -/
theorem getConfigString_mcc (config : IniConfig) (key standard : Text) :
    getConfigString ⟨some config⟩ ResourceManager.mccSection key (some standard) =
      some (mccValue config.store key standard) := by
  rw [getConfigString, Option.bind_some, IniConfig.getString_eq, lookup_eq_store, mccValue]
  exact Option.or_some

/-- A number of the configuration is one of its store; the standard one is written for it. -/
theorem getConfigInt_mcc (config : IniConfig) (key : Text) :
    getConfigInt ⟨some config⟩ ResourceManager.mccSection key 0 = atoi (mccValue config.store key "0".toList) := by
  show IniConfig.getInt config (some ResourceManager.mccSection) key 0 = _
  rw [IniConfig.getInt_eq, lookup_eq_store, mccValue,
    show sectionOf (some ResourceManager.mccSection) = ResourceManager.mccSection from rfl]
  cases (config.store ResourceManager.mccSection).bind fun sec => sec key with
  | none => rfl
  | some data => rfl

end ConfigParser

/-- **The manager is what the file says**, and one of the states that the model starts from. -/
theorem startup_of_file {file : Text} {items : List Item} {cameras monitors : List ℕ} {trunks : List (ℕ × ℕ)}
    {level matrixId : Int} (junk : Int) (hfile : file ≠ []) (hitems : textItems file = .ok items)
    (hharmless : ∀ pre e, pre ++ [e] <+: edits defaultSection items →
      (pre.foldl Store.edit initialConfig.store).Harmless e)
    (hsaid : FileSays ((edits defaultSection items).foldl Store.edit initialConfig.store) cameras monitors trunks level
      matrixId)
    (hcameras : cameras ≠ []) (hmonitors : monitors ≠ []) (htrunks : trunks ≠ []) (hcam : ∀ n ∈ cameras, n < 2 ^ 31)
    (hmon : ∀ n ∈ monitors, n < 2 ^ 31) (hpair : ∀ t ∈ trunks, t.1 < 2 ^ 31 ∧ t.2 < 2 ^ 31) :
    ∃ (s : ResourceManager Q) (parent : Option Text), startup junk (some file) = .ok (some (0, some (s, parent))) ∧
      s = ResourceManager.configured junk matrixId level (ResourceManager.ints cameras) (ResourceManager.ints monitors)
        (trunks.map fun t => ((t.1 : Int), (t.2 : Int))) ∧
      s.Initial := by
  have hcreate := IniConfig.create_of_items hitems
  have hstore : (IniConfig.ofItems items).store =
      (edits defaultSection items).foldl Store.edit initialConfig.store :=
    (IniConfig.edits_track_iff sound_initialConfig _).mpr hharmless _ (List.prefix_refl _)
  rw [← hstore] at hsaid
  have hparse : ConfigParser.parse (some file) = .ok (0, ⟨some (IniConfig.ofItems items)⟩) := by
    cases file with
    | nil => exact absurd rfl hfile
    | cons c file =>
      rw [ConfigParser.parse, iniConfigCreateFromFile, hcreate]
      exact fun h => List.cons_ne_nil c file h
  have hresources : ResourceManager.resourceConfig ⟨some (IniConfig.ofItems items)⟩ =
      ResourceManager.listed cameras monitors trunks := by
    unfold ResourceManager.resourceConfig ResourceManager.listed
    simp only [ConfigParser.getConfigString_mcc, hsaid.cameras, hsaid.monitors, hsaid.trunks]
  have hinit := @ResourceManager.initResource_eq_configured Q _ _ _ _ junk junk junk hcameras hmonitors htrunks hcam hmon
    hpair
  have hne : (trunks.map fun t => ((t.1 : Int), (t.2 : Int))) ≠ [] := by simpa using htrunks
  refine ⟨_, if level ≠ 0 then some (mccValue (IniConfig.ofItems items).store "ParentNodeIP".toList []) else none, ?_,
    rfl, ResourceManager.configured_initial hne⟩
  rw [startup, hparse]
  show Except.ok ((ResourceManager.init junk ⟨some (IniConfig.ofItems items)⟩).map fun s => ((0 : Int), some s)) = _
  rw [ResourceManager.init, hresources, bind_of_eq hinit, ResourceManager.initAgentMessenger,
    ConfigParser.getConfigInt_mcc, ConfigParser.getConfigInt_mcc, ConfigParser.getConfigString_mcc,
    bind_of_eq hsaid.level, bind_of_eq hsaid.matrixId]
  rfl

/-- What the file of a matrix says. -/
theorem fileSays_mccFile : FileSays ((edits defaultSection mccItems).foldl Store.edit initialConfig.store) [4, 7] [1, 2]
    [(1, 2), (3, 4)] 1 5 := by
  have hcameras : idList [4, 7] = "4:7".toList := rfl
  have hmonitors : idList [1, 2] = "1:2".toList := rfl
  have htrunks : pairList [(1, 2), (3, 4)] = "1-2:3-4".toList := rfl
  have hlevel : atoi "1".toList = some 1 := rfl
  have hmatrix : atoi "5".toList = some 5 := rfl
  constructor
  · simp [mccValue, mccItems, edits, Store.edit, ResourceManager.mccSection, hcameras]
  · simp [mccValue, mccItems, edits, Store.edit, ResourceManager.mccSection, hmonitors]
  · simp [mccValue, mccItems, edits, Store.edit, ResourceManager.mccSection, htrunks]
  · simp [mccValue, mccItems, edits, Store.edit, ResourceManager.mccSection] at hlevel ⊢
    exact hlevel
  · simp [mccValue, mccItems, edits, Store.edit, ResourceManager.mccSection] at hmatrix ⊢
    exact hmatrix

/-- Two cameras, two monitors and two trunks, at level 1. -/
theorem startup_of_mccFile : ∃ (s : ResourceManager (List User)) (parent : Option Text),
    startup 0 (some mccFile) = .ok (some (0, some (s, parent))) ∧
      s = ResourceManager.configured 0 5 1 (ResourceManager.ints [4, 7]) (ResourceManager.ints [1, 2]) [(1, 2), (3, 4)] ∧
      s.Initial := by
  have hne : mccFile ≠ [] := by
    unfold mccFile
    simp
  exact startup_of_file 0 hne textItems_mccFile (harmless_of_apart apart_mccItems) fileSays_mccFile (by simp) (by simp)
    (by simp) (by simp) (by simp) (by simp)

end Mcc
