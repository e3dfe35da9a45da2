import Mathlib.Data.List.Nodup
import Mathlib.Logic.Function.Basic
import Foundrix.Effect.Wp
import Foundrix.NftablesDns.Update
import Foundrix.Text.Infix

/-!
# The table

The chain and the sets of the table that the script updates. A batch is applied as a whole or
not at all; how nft lists an accept rule is a parameter.

* `Table`, `Stmt.apply`, `applyBatch`: what the statements do.
* `kernel`: the answers of libnftables.
* `ShowsSet`: a listed accept rule names its set after an at sign and no other dynamic set.
* `mentions_accept`, `no_old_sets`: what the script reads in an accept rule.
* `applyBatch_batch`: what the batch of the script makes of a table.
-/

namespace Foundrix.NftablesDns

open Effect Text

inductive Expr where
  /-- A rule of the configuration, by its text as `json.dumps` writes it. -/
  | static (rule_json : String)
  | accept (rule : Accept)
deriving DecidableEq, Repr

structure Rule where
  handle : Nat
  expr : Expr
deriving DecidableEq, Repr

structure NftSet where
  family : Family
  elements : List (String × Nat)
deriving DecidableEq, Repr

structure Table where
  chain : List Rule
  sets : String → Option NftSet
  /-- The handles from here on were never used. -/
  nextHandle : Nat

/-- How nft lists an accept rule with its handle, as `json.dumps` writes it. -/
abbrev Shown := Accept → Nat → String

def Rule.text (shown : Shown) (r : Rule) : String :=
  match r.expr with
  | .static rule_json => rule_json
  | .accept a => shown a r.handle

def Table.listing (shown : Shown) (T : Table) : List Listing :=
  .other :: T.chain.map fun r => .rule r.handle (r.text shown)

/-! ## Statements -/

/-- A rule in front of the one with the handle `position`. -/
def insertBefore (position : Nat) (r : Rule) : List Rule → Option (List Rule)
  | [] => none
  | q :: qs =>
    if q.handle = position then some (r :: q :: qs)
    else (insertBefore position r qs).map (q :: ·)

def Table.addTo (T : Table) (name : String) (elements : List (String × Nat)) : Option Table :=
  (T.sets name).map fun s =>
    { T with sets := Function.update T.sets name (some { s with elements := s.elements ∪ elements }) }

def Stmt.apply (T : Table) : Stmt → Option Table
  | .deleteRule handle =>
    if T.chain.any (·.handle = handle) then
      some { T with chain := T.chain.filter (·.handle ≠ handle) }
    else none
  | .deleteSet name =>
    -- A set that a rule refers to is busy.
    if (T.sets name).isNone || T.chain.any (fun r =>
        match r.expr with
        | .accept a => a.set = name
        | .static _ => false) then none
    else some { T with sets := Function.update T.sets name none }
  | .addSet name family =>
    match T.sets name with
    | none => some { T with sets := Function.update T.sets name (some ⟨family, []⟩) }
    | some s => if s.family = family then some T else none
  | .addElement name elements => T.addTo name elements
  | .insertRule position rule =>
    if (T.sets rule.set).isNone then none
    else (insertBefore position ⟨T.nextHandle, .accept rule⟩ T.chain).map fun chain =>
      { T with chain, nextHandle := T.nextHandle + 1 }

/-- A batch is one transaction. -/
def applyBatch (stmts : List Stmt) (T : Table) : Option Table := stmts.foldlM Stmt.apply T

/-- libnftables: the chain is listed as it is or not at all, and a batch is applied or fails as a
whole. -/
def answers (shown : Shown) : {β : Type} → Op β → Table → β → Table → Prop
  | _, .setHandleOutput _, T, _, T' => T' = T
  | _, .listChain _ _, T, b, T' => (∀ items, b = .ok items → items = T.listing shown) ∧ T' = T
  | _, .cmd stmts, T, b, T' =>
    match b with
    | .ok _ => applyBatch stmts T = some T'
    | .error _ => T' = T

def kernel (shown : Shown) : Handler Op Table where
  step := answers shown

/-! ## What the script reads in a rule -/

/-- The rule names a dynamic set of the protocol. -/
def mentions (shown : Shown) (proto : Proto) (r : Rule) : Bool :=
  contains (r.text shown) (setPrefix proto)

/-- The script takes the rule for the drop rule. -/
def isDrop (shown : Shown) (r : Rule) : Bool := isDropText (r.text shown)

/-- The listing of an accept rule has the string `"@<set>"`, and besides it no text that a
dynamic set begins with. -/
def ShowsSet (shown : Shown) : Prop :=
  ∀ a handle, ∃ before after,
    (shown a handle).toList = before ++ '"' :: '@' :: a.set.toList ++ '"' :: after ∧
      ∀ proto, ¬ (setPrefix proto).toList <:+: before ∧ ¬ (setPrefix proto).toList <:+: after

/-- The digest is written in hexadecimal digits. -/
def HexDigest (sha256 : String → String) : Prop :=
  ∀ data, ∀ c ∈ (sha256 data).toList, c.isDigit ∨ ('a' ≤ c ∧ c ≤ 'f')

/-- What is known of the characters of a hash. -/
def IsHex (h : String) : Prop := ∀ c ∈ h.toList, c.isDigit ∨ ('a' ≤ c ∧ c ≤ 'f')

theorem elementsHash_hex {sha256 : String → String} (hsha : HexDigest sha256)
    (elements : Elements) : IsHex (elementsHash sha256 elements) := by
  intro c hc
  rw [elementsHash, String.toList_ofList] at hc
  exact hsha _ c (List.mem_of_mem_take hc)

theorem IsHex.notMem {h : String} (hh : IsHex h) {c : Char} (hdigit : c.isDigit = false)
    (hletter : ¬ ('a' ≤ c ∧ c ≤ 'f')) : c ∉ h.toList := by
  intro hc
  rcases hh c hc with hd | hl
  · rw [hdigit] at hd
    cases hd
  · exact hletter hl

theorem setName_toList (proto : Proto) (family : Family) (h : String) :
    (setName proto family h).toList =
      (setPrefix proto).toList ++ (family.word.toList ++ '_' :: h.toList) := by
  simp [setName]

theorem startsWith_setName (proto : Proto) (family : Family) (h : String) :
    startsWith (setName proto family h) (setPrefix proto) = true := by
  rw [startsWith_iff, setName_toList]
  exact List.prefix_append _ _

/-- How the names of the sets go on after the y, which is the only one. -/
def afterY : Proto → List Char
  | .tcp => ['n', 'a', 'm', 'i', 'c', '_', 't', 'c', 'p', '_']
  | .udp => ['n', 'a', 'm', 'i', 'c', '_', 'u', 'd', 'p', '_']

theorem setPrefix_toList (proto : Proto) :
    (setPrefix proto).toList = "allowed_d".toList ++ 'y' :: afterY proto := by
  cases proto <;> rfl

/-- The name of a set is in no other protocol's name space. -/
theorem setName_mentions {proto proto' : Proto} {family : Family} {h : String} (hh : IsHex h)
    (hmem : (setPrefix proto').toList <:+: (setName proto family h).toList) : proto' = proto := by
  obtain ⟨u, v, huv⟩ := hmem
  rw [setName_toList, setPrefix_toList, setPrefix_toList] at huv
  have hsplit : "allowed_d".toList ++ 'y' :: (afterY proto ++ (family.word.toList ++ '_' :: h.toList)) =
      (u ++ "allowed_d".toList) ++ 'y' :: (afterY proto' ++ v) := by
    simpa using huv.symm
  have hhead : 'y' ∉ "allowed_d".toList := by decide
  have hrest : 'y' ∉ afterY proto ++ (family.word.toList ++ '_' :: h.toList) := by
    have hy : 'y' ∉ h.toList := hh.notMem rfl (by decide)
    have hword : 'y' ∉ afterY proto ++ (family.word.toList ++ ['_']) := by
      cases proto <;> cases family <;> decide
    intro hmem
    rcases List.mem_append.mp hmem with hmem | hmem
    · exact hword (List.mem_append_left _ hmem)
    · rcases List.mem_append.mp hmem with hmem | hmem
      · exact hword (List.mem_append_right _ (List.mem_append_left _ hmem))
      · rcases List.mem_cons.mp hmem with heq | hmem
        · cases heq
        · exact hy hmem
  obtain ⟨-, -, htail⟩ := (List.append_cons_inj_of_notMem hhead hrest).mp hsplit
  have hword := congrArg (fun l : List Char => l[6]?) htail
  cases proto <;> cases proto'
  · rfl
  · cases hword
  · cases hword
  · rfl

theorem not_startsWith_setName {proto proto' : Proto} {family : Family} {h : String}
    (hh : IsHex h) (hne : proto' ≠ proto) :
    startsWith (setName proto family h) (setPrefix proto') = false := by
  cases hstart : startsWith (setName proto family h) (setPrefix proto') with
  | false => rfl
  | true => exact absurd (setName_mentions hh (startsWith_iff.mp hstart).isInfix) hne

theorem setName_v4_ne_v6 (proto : Proto) (h : String) :
    setName proto .v4 h ≠ setName proto .v6 h := by
  intro heq
  have hlist := congrArg String.toList heq
  rw [setName_toList, setName_toList] at hlist
  have htail := List.append_cancel_left hlist
  simp [Family.word] at htail

/-! ## Accept rules in a listing -/

section Listing

variable {shown : Shown} {h : String}

/-- An accept rule of the script. -/
def Accept.WellNamed (a : Accept) : Prop :=
  ∃ h, IsHex h ∧ a.set = setName a.proto a.family h

theorem setName_noQuote {proto : Proto} {family : Family} (hh : IsHex h) :
    '"' ∉ (setName proto family h).toList := by
  have hq : '"' ∉ h.toList := hh.notMem rfl (by decide)
  have hprefix : '"' ∉ (setPrefix proto).toList := by cases proto <;> decide +kernel
  have hfamily : '"' ∉ family.word.toList := by cases family <;> decide +kernel
  rw [setName_toList]
  intro hmem
  rcases List.mem_append.mp hmem with hmem | hmem
  · exact hprefix hmem
  · rcases List.mem_append.mp hmem with hmem | hmem
    · exact hfamily hmem
    · rcases List.mem_cons.mp hmem with heq | hmem
      · cases heq
      · exact hq hmem

theorem mentions_accept (hshown : ShowsSet shown) {a : Accept} (ha : a.WellNamed)
    (handle : Nat) (proto : Proto) :
    mentions shown proto ⟨handle, .accept a⟩ = true ↔ proto = a.proto := by
  obtain ⟨h, hh, hname⟩ := ha
  obtain ⟨before, after, htext, hother⟩ := hshown a handle
  show contains (shown a handle) (setPrefix proto) = true ↔ _
  rw [contains_iff, htext]
  constructor
  · intro hmem
    have hquote : '"' ∉ (setPrefix proto).toList := by cases proto <;> decide +kernel
    have hat : '@' ∉ (setPrefix proto).toList := by cases proto <;> decide +kernel
    rcases infix_split hquote hmem with hmem | hmem
    · rcases infix_split hquote hmem with hmem | hmem
      · exact absurd hmem (hother proto).1
      · have hset : (setPrefix proto).toList <:+: [] ++ '@' :: a.set.toList := hmem
        rcases infix_split hat hset with hmem | hmem
        · rw [setPrefix_toList, List.infix_nil] at hmem
          cases hmem
        · rw [hname] at hmem
          exact setName_mentions hh hmem
    · exact absurd hmem (hother proto).2
  · intro hproto
    subst hproto
    rw [hname, setName_toList]
    exact ⟨before ++ ['"', '@'], (a.family.word.toList ++ '_' :: h.toList) ++ '"' :: after, by simp⟩

/-- The script finds no name of a set in an accept rule: the string there begins with the at
sign. -/
theorem no_old_sets (hshown : ShowsSet shown) {a : Accept} (ha : a.WellNamed) (handle : Nat)
    (proto : Proto) :
    (split (shown a handle) '"').filter (fun word => startsWith word (setPrefix proto)) = [] := by
  obtain ⟨h, hh, hname⟩ := ha
  obtain ⟨before, after, htext, hother⟩ := hshown a handle
  apply List.filter_eq_nil_iff.mpr
  intro word hword hstart
  obtain ⟨w, hw, rfl⟩ := List.mem_map.mp hword
  rw [startsWith_iff, String.toList_ofList] at hstart
  rw [htext, splitFrom_sep, List.mem_append] at hw
  rcases hw with hw | hw
  · rw [splitFrom_sep, List.mem_append] at hw
    rcases hw with hw | hw
    · have hbefore : w <:+: before := by simpa using mem_splitFrom_infix hw
      exact (hother proto).1 (hstart.isInfix.trans hbefore)
    · have hquote : '"' ∉ '@' :: a.set.toList := by
        rw [hname]
        simpa using setName_noQuote hh
      rw [splitFrom_of_notMem hquote] at hw
      obtain rfl := List.mem_singleton.mp hw
      obtain ⟨rest, hrest⟩ := hstart
      have hhead := congrArg List.head? hrest
      rw [setPrefix_toList] at hhead
      cases hhead
  · have hafter : w <:+: after := by simpa using mem_splitFrom_infix hw
    exact (hother proto).2 (hstart.isInfix.trans hafter)

end Listing

end Foundrix.NftablesDns
