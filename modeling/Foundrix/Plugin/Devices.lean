import Mathlib.Data.List.Nodup
import Foundrix.Text.Path

/-!
# The device files of a flake

`collectDeviceConfigs` of `plugin.nix`, for any directory tree: the devices that the documented
rules select, and the attribute set that is made of them.

* `Node`, `Directory`: a directory tree, as `readDir` shows it.
* `processDir`, `collectDeviceConfigs`: the code.
* `Selected`: the documented rules, with the parts that a device is named by.
* `mem_processDir`: the code finds what the rules select.
* `yields_every_iff`: when every selected path is in the attribute set.
-/

namespace Foundrix.Plugin

open Text

/-! ## Directory trees -/

/-- What a name stands for. -/
inductive Node where
  | file
  | directory (entries : List (String × Node))
  /-- A symbolic link, or anything else. -/
  | other

/-- The attribute set of `readDir`, in some order. -/
abbrev Entries := List (String × Node)

/-- The type is `"regular"`. -/
def Node.isFile : Node → Bool
  | file => true
  | _ => false

/-- The names in a directory are different, and none is empty. -/
inductive Sound : Entries → Prop
  | intro {entries : Entries} (nodup : (entries.map Prod.fst).Nodup)
      (names : ∀ e ∈ entries, e.1 ≠ "")
      (inner : ∀ name sub, (name, .directory sub) ∈ entries → Sound sub) : Sound entries

structure Directory where
  entries : Entries
  sound : Sound entries

/-! ## The code -/

/-- A path: the names on the way. -/
abbrev Path := List String

/-- A pair for `listToAttrs`. -/
structure Device where
  name : String
  value : Path
deriving DecidableEq, Repr

/-- `lib.hasSuffix`. -/
def hasSuffix (suffix s : String) : Bool := suffix.toList.isSuffixOf s.toList

/-- `lib.removeSuffix`. -/
def removeSuffix (suffix s : String) : String :=
  if hasSuffix suffix s then
    String.ofList (s.toList.take (s.toList.length - suffix.toList.length))
  else s

/-- `entries ? name && entries.name == "regular"`. -/
def isRegular (entries : Entries) (name : String) : Bool :=
  entries.any fun e => e.1 == name && e.2.isFile

/-- The name of what stands at `name` in a directory. -/
def attrName (relativePath name : String) : String :=
  if relativePath = "" then name else relativePath ++ "-" ++ name

def nixFiles (entries : Entries) : List String :=
  (entries.filter fun e => e.2.isFile && hasSuffix ".nix" e.1 && e.1 != "default.nix").map Prod.fst

def devicesFromFiles (entries : Entries) (currentDir : Path) (relativePath : String) :
    List Device :=
  (nixFiles entries).map fun name =>
    ⟨attrName relativePath (removeSuffix ".nix" name), currentDir ++ [name]⟩

def hasSiblingNix (entries : Entries) (name : String) : Bool :=
  (nixFiles entries).contains (name ++ ".nix") || isRegular entries (name ++ ".nix")

mutual

def processDir : Node → Path → String → List Device
  | .directory entries, currentDir, relativePath =>
    devicesFromFiles entries currentDir relativePath ++
      devicesFromDirs entries entries currentDir relativePath
  | _, _, _ => []

/-- The devices of the subdirectories among some entries of a directory. -/
def devicesFromDirs (entries : Entries) : Entries → Path → String → List Device
  | [], _, _ => []
  | (name, node) :: rest, currentDir, relativePath =>
    let subdirPath := currentDir ++ [name]
    let newRelativePath := attrName relativePath name
    (match node with
      | .directory sub =>
        if hasSiblingNix entries name then processDir node subdirPath newRelativePath
        else if isRegular sub "default.nix" then [⟨newRelativePath, subdirPath⟩]
        else processDir node subdirPath newRelativePath
      | _ => []) ++ devicesFromDirs entries rest currentDir relativePath

end

/-- An attribute set of paths. -/
abbrev Attrs := String → Option Path

/-- `lib.listToAttrs`: the first pair with a name counts. -/
def listToAttrs (l : List Device) : Attrs := fun name =>
  (l.find? fun d => d.name == name).map Device.value

/-- The devices under `dir`, which may not be there. -/
def results (dir : Path) : Option Directory → List Device
  | some tree => processDir (.directory tree.entries) dir ""
  | none => []

def collectDeviceConfigs (dir : Path) (tree : Option Directory) : Attrs :=
  listToAttrs (results dir tree)

/-! ## The documented rules -/

/-- The subdirectory is a device as a whole: it has a `default.nix`, and no `.nix` file beside it
is named after it. -/
def Whole (entries : Entries) (name : String) (sub : Entries) : Prop :=
  ("default.nix", Node.file) ∈ sub ∧ (name ++ ".nix", Node.file) ∉ entries

/-- The paths below a directory that the rules select, with the parts of their names. -/
inductive Selected : Entries → Path → List String → Prop
  | file {entries : Entries} {name : String} (hmem : (name, .file) ∈ entries)
      (hnix : hasSuffix ".nix" name) (hname : name ≠ "default.nix") :
      Selected entries [name] [removeSuffix ".nix" name]
  | device {entries sub : Entries} {name : String} (hmem : (name, .directory sub) ∈ entries)
      (hwhole : Whole entries name sub) : Selected entries [name] [name]
  | inside {entries sub : Entries} {name : String} {path : Path} {parts : List String}
      (hmem : (name, .directory sub) ∈ entries) (hwhole : ¬ Whole entries name sub)
      (h : Selected sub path parts) : Selected entries (name :: path) (name :: parts)

theorem mem_isRegular {entries : Entries} {name : String} :
    isRegular entries name = true ↔ (name, Node.file) ∈ entries := by
  unfold isRegular
  rw [List.any_eq_true]
  constructor
  · rintro ⟨⟨name', node⟩, he, h⟩
    rw [Bool.and_eq_true, beq_iff_eq] at h
    obtain ⟨rfl, hfile⟩ := h
    cases node with
    | file => exact he
    | directory sub => cases hfile
    | other => cases hfile
  · exact fun h => ⟨_, h, by simp [Node.isFile]⟩

theorem mem_nixFiles {entries : Entries} {name : String} :
    name ∈ nixFiles entries ↔
      (name, Node.file) ∈ entries ∧ hasSuffix ".nix" name = true ∧ name ≠ "default.nix" := by
  unfold nixFiles
  rw [List.mem_map]
  constructor
  · rintro ⟨⟨name', node⟩, he, rfl⟩
    obtain ⟨hmem, h⟩ := List.mem_filter.mp he
    simp only [Bool.and_eq_true, bne_iff_ne] at h
    obtain ⟨⟨hfile, hnix⟩, hname⟩ := h
    cases node with
    | file => exact ⟨hmem, hnix, hname⟩
    | directory sub => cases hfile
    | other => cases hfile
  · rintro ⟨hmem, hnix, hname⟩
    exact ⟨_, List.mem_filter.mpr ⟨hmem, by simp [Node.isFile, hnix, hname]⟩, rfl⟩

/-- A sibling counts whether or not it is a device itself. -/
theorem mem_hasSiblingNix {entries : Entries} {name : String} :
    hasSiblingNix entries name = true ↔ (name ++ ".nix", Node.file) ∈ entries := by
  unfold hasSiblingNix
  rw [Bool.or_eq_true, List.contains_iff_mem, mem_nixFiles, mem_isRegular]
  exact ⟨fun h => h.elim And.left id, Or.inr⟩

/-- The devices of the subdirectories, one by one. -/
theorem mem_devicesFromDirs {entries l : Entries} {currentDir : Path} {relativePath : String}
    {d : Device} :
    d ∈ devicesFromDirs entries l currentDir relativePath ↔ ∃ name sub,
      (name, .directory sub) ∈ l ∧
      ((Whole entries name sub ∧ d = ⟨attrName relativePath name, currentDir ++ [name]⟩) ∨
        (¬ Whole entries name sub ∧
          d ∈ processDir (.directory sub) (currentDir ++ [name])
            (attrName relativePath name))) := by
  induction l with
  | nil => simp [devicesFromDirs]
  | cons e l ih =>
    obtain ⟨name, node⟩ := e
    have hhead : ∀ sub, d ∈ (if hasSiblingNix entries name then
          processDir (.directory sub) (currentDir ++ [name]) (attrName relativePath name)
        else if isRegular sub "default.nix" then
          [⟨attrName relativePath name, currentDir ++ [name]⟩]
        else processDir (.directory sub) (currentDir ++ [name]) (attrName relativePath name)) ↔
        (Whole entries name sub ∧ d = ⟨attrName relativePath name, currentDir ++ [name]⟩) ∨
        (¬ Whole entries name sub ∧
          d ∈ processDir (.directory sub) (currentDir ++ [name])
            (attrName relativePath name)) := by
      intro sub
      unfold Whole
      rw [← mem_hasSiblingNix, ← mem_isRegular]
      by_cases hsibling : hasSiblingNix entries name = true
      · simp [hsibling]
      · by_cases hdefault : isRegular sub "default.nix" = true
        · simp [hsibling, hdefault]
        · simp [hsibling, hdefault]
    cases node with
    | directory sub =>
      rw [devicesFromDirs, List.mem_append, ih, hhead]
      constructor
      · rintro (h | ⟨name', sub', hmem, h⟩)
        · exact ⟨name, sub, List.mem_cons_self, h⟩
        · exact ⟨name', sub', List.mem_cons_of_mem _ hmem, h⟩
      · rintro ⟨name', sub', hmem, h⟩
        rcases List.mem_cons.mp hmem with he | hmem
        · cases he
          exact Or.inl h
        · exact Or.inr ⟨name', sub', hmem, h⟩
    | file => simp [devicesFromDirs, ih]
    | other => simp [devicesFromDirs, ih]

/-- The name that is made of some parts. -/
def nameOf (relativePath : String) (parts : List String) : String :=
  parts.foldl attrName relativePath

/-- The code finds what the rules select. -/
theorem mem_processDir {entries : Entries} (hsound : Sound entries) {currentDir : Path}
    {relativePath : String} {d : Device} :
    d ∈ processDir (.directory entries) currentDir relativePath ↔ ∃ path parts,
      Selected entries path parts ∧ d = ⟨nameOf relativePath parts, currentDir ++ path⟩ := by
  induction hsound generalizing currentDir relativePath with
  | intro nodup names inner ih =>
    rw [processDir, List.mem_append, mem_devicesFromDirs]
    constructor
    · rintro (hfile | ⟨name, sub, hmem, ⟨hwhole, rfl⟩ | ⟨hwhole, hd⟩⟩)
      · obtain ⟨name, hname, rfl⟩ := List.mem_map.mp hfile
        obtain ⟨hmem, hnix, hdefault⟩ := mem_nixFiles.mp hname
        exact ⟨_, _, .file hmem hnix hdefault, rfl⟩
      · exact ⟨_, _, .device hmem hwhole, rfl⟩
      · obtain ⟨path, parts, hselected, rfl⟩ := (ih name sub hmem).mp hd
        refine ⟨_, _, .inside hmem hwhole hselected, ?_⟩
        rw [List.append_assoc]
        rfl
    · rintro ⟨path, parts, hselected, rfl⟩
      cases hselected with
      | file hmem hnix hdefault =>
        exact Or.inl (List.mem_map.mpr ⟨_, mem_nixFiles.mpr ⟨hmem, hnix, hdefault⟩, rfl⟩)
      | device hmem hwhole => exact Or.inr ⟨_, _, hmem, Or.inl ⟨hwhole, rfl⟩⟩
      | @inside _ sub name path parts hmem hwhole h =>
        refine Or.inr ⟨name, sub, hmem, Or.inr ⟨hwhole, (ih name sub hmem).mpr ?_⟩⟩
        refine ⟨path, parts, h, ?_⟩
        rw [List.append_assoc]
        rfl

/-! ## Names -/

theorem nameOf_of_ne {relativePath : String} (h : relativePath ≠ "") (parts : List String) :
    nameOf relativePath parts = join "-" (relativePath :: parts) := by
  induction parts generalizing relativePath with
  | nil => rfl
  | cons part parts ih =>
    have hjoined : attrName relativePath part = relativePath ++ "-" ++ part := if_neg h
    have hne : relativePath ++ "-" ++ part ≠ "" := by
      intro he
      have hlist := congrArg String.toList he
      simp at hlist
    show nameOf (attrName relativePath part) parts = _
    rw [hjoined, ih hne]
    cases parts with
    | nil => rfl
    | cons part' parts => simp only [join_cons_cons, String.append_assoc]

section Unique

variable {entries : Entries} {path path' : Path} {parts parts' : List String}

theorem Selected.parts_ne_nil (h : Selected entries path parts) : parts ≠ [] := by
  cases h <;> exact List.cons_ne_nil _ _

/-- A selected path is named by its parts, with dashes between them. -/
theorem Selected.nameOf_eq (hsound : Sound entries) (h : Selected entries path parts) :
    nameOf "" parts = join "-" parts := by
  obtain ⟨-, names, -⟩ := hsound
  cases h with
  | file hmem hnix hname => rfl
  | device hmem hwhole => rfl
  | @inside _ sub name path parts hmem hwhole h => exact nameOf_of_ne (names _ hmem) parts

/-- A name stands for one thing. -/
theorem Sound.node_unique (hsound : Sound entries) {name : String} {node node' : Node}
    (h : (name, node) ∈ entries) (h' : (name, node') ∈ entries) : node = node' := by
  obtain ⟨nodup, -, -⟩ := hsound
  exact (Prod.mk.inj (List.inj_on_of_nodup_map nodup h h' rfl)).2

theorem Sound.inner {sub : Entries} {name : String} (hsound : Sound entries)
    (h : (name, .directory sub) ∈ entries) : Sound sub := by
  obtain ⟨-, -, inner⟩ := hsound
  exact inner name sub h

theorem removeSuffix_inj {suffix s t : String} (hs : hasSuffix suffix s = true)
    (ht : hasSuffix suffix t = true) (h : removeSuffix suffix s = removeSuffix suffix t) :
    s = t := by
  rw [removeSuffix, if_pos hs, removeSuffix, if_pos ht, String.ofList_inj] at h
  obtain ⟨u, hu⟩ := List.isSuffixOf_iff_suffix.mp hs
  obtain ⟨v, hv⟩ := List.isSuffixOf_iff_suffix.mp ht
  rw [← hu, ← hv] at h
  have huv : u = v := by simpa using h
  rw [← String.toList_inj, ← hu, ← hv, huv]

theorem removeSuffix_append {suffix s : String} (hs : hasSuffix suffix s = true) :
    removeSuffix suffix s ++ suffix = s := by
  obtain ⟨u, hu⟩ := List.isSuffixOf_iff_suffix.mp hs
  rw [removeSuffix, if_pos hs, ← String.toList_inj, ← hu]
  simp

/-- The parts tell which path was selected: a file that has the name of a directory keeps this
from being a device as a whole. -/
theorem Selected.path_unique (hsound : Sound entries) (h : Selected entries path parts)
    (h' : Selected entries path' parts) : path = path' := by
  induction h generalizing path' with
  | @file entries name hmem hnix hname =>
    generalize hparts : [removeSuffix ".nix" name] = parts at h'
    cases h' with
    | @file _ name' hmem' hnix' hname' =>
      rw [removeSuffix_inj hnix hnix' (List.cons.inj hparts).1]
    | @device _ sub name' hmem' hwhole' =>
      have hsibling : name' ++ ".nix" = name := by
        rw [← (List.cons.inj hparts).1, removeSuffix_append hnix]
      exact absurd (hsibling ▸ hmem) hwhole'.2
    | @inside _ sub name' path' parts' hmem' hwhole' h' =>
      exact absurd (List.cons.inj hparts).2.symm h'.parts_ne_nil
  | @device entries sub name hmem hwhole =>
    generalize hparts : [name] = parts at h'
    cases h' with
    | @file _ name' hmem' hnix' hname' =>
      have hsibling : name ++ ".nix" = name' := by
        rw [(List.cons.inj hparts).1, removeSuffix_append hnix']
      exact absurd (hsibling ▸ hmem') hwhole.2
    | @device _ sub name' hmem' hwhole' => rfl
    | @inside _ sub name' path' parts' hmem' hwhole' h' =>
      exact absurd (List.cons.inj hparts).2.symm h'.parts_ne_nil
  | @inside entries sub name path parts hmem hwhole h ih =>
    generalize hparts : name :: parts = parts' at h'
    cases h' with
    | @file _ name' hmem' hnix' hname' =>
      exact absurd (List.cons.inj hparts).2 h.parts_ne_nil
    | @device _ sub name' hmem' hwhole' =>
      exact absurd (List.cons.inj hparts).2 h.parts_ne_nil
    | @inside _ sub' name' path' parts' hmem' hwhole' h' =>
      obtain ⟨rfl, rfl⟩ := List.cons.inj hparts
      obtain rfl : sub = sub' := Node.directory.inj (hsound.node_unique hmem hmem')
      rw [ih (hsound.inner hmem) h']

end Unique

/-! ## When every selected path is there -/

/-- The paths below a directory that the rules select, where it exists. -/
def SelectedIn (tree : Option Directory) (path : Path) (parts : List String) : Prop :=
  ∃ t, tree = some t ∧ Selected t.entries path parts

/-- The values are the selected paths, and no two of them share a name. -/
structure YieldsEvery (dir : Path) (tree : Option Directory) : Prop where
  values : ∀ v, (∃ name, collectDeviceConfigs dir tree name = some v) ↔
    ∃ path parts, SelectedIn tree path parts ∧ v = dir ++ path
  names : ∀ d ∈ results dir tree, ∀ d' ∈ results dir tree, d.name = d'.name → d.value = d'.value

/-- The pieces of some parts between the dashes in them. -/
def words (parts : List String) : List String := parts.flatMap (split · '-')

/-- Different selected paths have different words. -/
def WordsApart (tree : Option Directory) : Prop :=
  ∀ path parts path' parts', SelectedIn tree path parts → SelectedIn tree path' parts' →
    words parts = words parts' → path = path'

section Results

variable {dir : Path} {tree : Option Directory}

theorem mem_results {d : Device} : d ∈ results dir tree ↔
    ∃ path parts, SelectedIn tree path parts ∧ d = ⟨join "-" parts, dir ++ path⟩ := by
  cases tree with
  | none => simp [results, SelectedIn]
  | some t =>
    rw [results, mem_processDir t.sound]
    constructor
    · rintro ⟨path, parts, h, rfl⟩
      exact ⟨path, parts, ⟨t, rfl, h⟩, by rw [h.nameOf_eq t.sound]⟩
    · rintro ⟨path, parts, ⟨t', ht, h⟩, rfl⟩
      cases ht
      exact ⟨path, parts, h, by rw [h.nameOf_eq t.sound]⟩

/-- Paths share a name where they have the same words. -/
theorem SelectedIn.join_eq_iff {path path' : Path} {parts parts' : List String}
    (h : SelectedIn tree path parts) (h' : SelectedIn tree path' parts') :
    join "-" parts = join "-" parts' ↔ words parts = words parts' := by
  obtain ⟨t, -, h⟩ := h
  obtain ⟨t', -, h'⟩ := h'
  exact Text.join_eq_iff (by decide) h.parts_ne_nil h'.parts_ne_nil

/-- Where no two devices share a name, each is in the attribute set. -/
theorem values_of_names
    (hnames : ∀ d ∈ results dir tree, ∀ d' ∈ results dir tree, d.name = d'.name →
      d.value = d'.value) (v : Path) :
    (∃ name, collectDeviceConfigs dir tree name = some v) ↔
      ∃ d ∈ results dir tree, d.value = v := by
  constructor
  · rintro ⟨name, h⟩
    obtain ⟨d, hfind, hv⟩ := Option.map_eq_some_iff.mp h
    exact ⟨d, List.mem_of_find?_eq_some hfind, hv⟩
  · rintro ⟨d, hd, rfl⟩
    refine ⟨d.name, ?_⟩
    cases hfind : (results dir tree).find? fun e => e.name == d.name with
    | none =>
      have hno := List.find?_eq_none.mp hfind d hd
      simp at hno
    | some e =>
      have hname : e.name = d.name := by simpa using List.find?_some hfind
      have hvalue := hnames e (List.mem_of_find?_eq_some hfind) d hd hname
      simp [collectDeviceConfigs, listToAttrs, hfind, hvalue]

theorem yieldsEvery_of_words (h : WordsApart tree) : YieldsEvery dir tree := by
  have hnames : ∀ d ∈ results dir tree, ∀ d' ∈ results dir tree, d.name = d'.name →
      d.value = d'.value := by
    intro d hd d' hd' hname
    obtain ⟨path, parts, hselected, rfl⟩ := mem_results.mp hd
    obtain ⟨path', parts', hselected', rfl⟩ := mem_results.mp hd'
    have hwords := (hselected.join_eq_iff hselected').mp hname
    rw [h path parts path' parts' hselected hselected' hwords]
  refine ⟨fun v => ?_, hnames⟩
  rw [values_of_names hnames]
  constructor
  · rintro ⟨d, hd, rfl⟩
    obtain ⟨path, parts, hselected, rfl⟩ := mem_results.mp hd
    exact ⟨path, parts, hselected, rfl⟩
  · rintro ⟨path, parts, hselected, rfl⟩
    exact ⟨_, mem_results.mpr ⟨path, parts, hselected, rfl⟩, rfl⟩

/-- **Every device file yields a device** exactly where different selected paths have different
words. -/
theorem yields_every_iff (dir : Path) (tree : Option Directory) :
    YieldsEvery dir tree ↔ WordsApart tree := by
  constructor
  · intro h path parts path' parts' hselected hselected' hwords
    have hname := (hselected.join_eq_iff hselected').mpr hwords
    have hvalue := h.names _ (mem_results.mpr ⟨path, parts, hselected, rfl⟩) _
      (mem_results.mpr ⟨path', parts', hselected', rfl⟩) hname
    exact List.append_cancel_left hvalue
  · exact yieldsEvery_of_words

/-- Without a dash in any name, nothing is lost. -/
theorem yieldsEvery_of_no_dash (h : ∀ path parts, SelectedIn tree path parts →
    ∀ part ∈ parts, '-' ∉ part.toList) : YieldsEvery dir tree := by
  have hwords : ∀ path parts, SelectedIn tree path parts → words parts = parts := by
    intro path parts hselected
    have hone : ∀ part ∈ parts, split part '-' = [part] :=
      fun part hpart => split_of_notMem (h path parts hselected part hpart)
    unfold words
    rw [List.flatMap_congr hone]
    simp
  refine yieldsEvery_of_words fun path parts path' parts' hselected hselected' hsame => ?_
  rw [hwords path parts hselected, hwords path' parts' hselected'] at hsame
  subst hsame
  obtain ⟨t, ht, hselected⟩ := hselected
  obtain ⟨t', ht', hselected'⟩ := hselected'
  obtain rfl : t = t' := Option.some.inj (ht.symm.trans ht')
  exact hselected.path_unique t.sound hselected'

end Results

/-! ## A lost device -/

/-- A device in the file `a-b.nix` and one in the file `b.nix` of the directory `a`. -/
def dashed : Directory where
  entries := [("a", .directory [("b.nix", .file)]), ("a-b.nix", .file)]
  sound := by
    refine .intro (by decide) (by decide) fun name sub hmem => ?_
    rcases List.mem_cons.mp hmem with he | hmem
    · cases he
      refine .intro (by decide) (by decide) fun name sub hmem => ?_
      simp at hmem
    · simp at hmem

/-- The device of the directory is lost. -/
theorem device_lost : ¬ ∀ dir tree, YieldsEvery dir tree := by
  intro h
  have hselected : SelectedIn (some dashed) ["a", "b.nix"] ["a", "b"] := by
    refine ⟨dashed, rfl, .inside List.mem_cons_self ?_ ?_⟩
    · exact fun hwhole => by simpa using hwhole.1
    · exact .file List.mem_cons_self (by decide) (by decide)
  obtain ⟨name, hname⟩ := ((h [] (some dashed)).values _).mpr ⟨_, _, hselected, rfl⟩
  have hresults : results [] (some dashed) =
      [⟨"a-b", ["a-b.nix"]⟩, ⟨"a-b", ["a", "b.nix"]⟩] := by decide
  rw [collectDeviceConfigs, hresults] at hname
  by_cases hab : name = "a-b"
  · simp [listToAttrs, hab] at hname
  · simp [listToAttrs, Ne.symm hab] at hname

end Foundrix.Plugin
