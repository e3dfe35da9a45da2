import Foundrix.HyprWorkspaced.Ipc
import Mathlib.Data.List.Nodup

/-!
# Pinned window patterns

`WindowPattern` of `packages/hypr-workspaced/src/window.rs`, and `pin`, `unpin` and `pins` of
`packages/hypr-workspaced/src/workspace.rs`, behind the lines that the daemon receives.

* `WindowPattern.parse`, `WindowPattern.display`: patterns and their texts.
* `Listed`: a pattern that can be sent in the text that it is listed with.
* `receive`: what a line does to the pinned patterns.
* `pinned_unpins`: whatever was received before, what is listed can be unpinned.
-/

namespace Foundrix.HyprWorkspaced

open Text

/-! ## Patterns -/

inductive WindowPattern where
  | «class» (value : String)
  | title (value : String)
  | pid (value : Int32)
  | address (value : String)
  | floating (value : Bool)
  | fullscreen (value : Bool)
deriving DecidableEq, Repr

def parseBool (s : String) : Option Bool :=
  if s = "true" ∨ s = "1" ∨ s = "yes" then some true
  else if s = "false" ∨ s = "0" ∨ s = "no" then some false
  else none

namespace WindowPattern

def parse (spec : String) : Option WindowPattern :=
  match splitOnce spec ':' with
  | none => none
  | some (kind, value) =>
    if kind = "class" then some (.class value)
    else if kind = "title" then some (.title value)
    else if kind = "pid" then (parseSigned 32 value).map fun n => .pid (Int32.ofInt n)
    else if kind = "address" then some (.address value)
    else if kind = "floating" then (parseBool value).map .floating
    else if kind = "fullscreen" then (parseBool value).map .fullscreen
    else none

def boolText (b : Bool) : String := if b then "true" else "false"

/-- `Display for WindowPattern`. -/
def display : WindowPattern → String
  | .class v => "class:" ++ v
  | .title v => "title:" ++ v
  | .pid v => "pid:" ++ v.toInt.repr
  | .address v => "address:" ++ v
  | .floating v => "floating:" ++ boolText v
  | .fullscreen v => "fullscreen:" ++ boolText v

/-- The texts before and after the colon. -/
def parts : WindowPattern → String × String
  | .class v => ("class", v)
  | .title v => ("title", v)
  | .pid v => ("pid", v.toInt.repr)
  | .address v => ("address", v)
  | .floating v => ("floating", boolText v)
  | .fullscreen v => ("fullscreen", boolText v)

end WindowPattern

/-! ## The pinned patterns -/

def invalidWindowPattern (patternStr : String) : String :=
  s!"Invalid window pattern: {patternStr}"

/-- The result of a command, and the pinned patterns after it. -/
abbrev Pinning := Except String Unit × List WindowPattern

def pin (pinned : List WindowPattern) (patternStr : String) : Pinning :=
  match WindowPattern.parse patternStr with
  | none => (.error (invalidWindowPattern patternStr), pinned)
  | some pattern => (.ok (), if pattern ∈ pinned then pinned else pinned ++ [pattern])

def unpin (pinned : List WindowPattern) (patternStr : String) : Pinning :=
  match WindowPattern.parse patternStr with
  | none => (.error (invalidWindowPattern patternStr), pinned)
  | some pattern =>
    (.ok (), match pinned.findIdx? (· == pattern) with
      | some pos => pinned.eraseIdx pos
      | none => pinned)

def pins (pinned : List WindowPattern) : List String := pinned.map WindowPattern.display

/-- What the daemon makes of what a client sends. The other commands leave the pinned patterns
alone, and what they answer is left open. -/
def receive (pinned : List WindowPattern) (sent : String) : Pinning :=
  match Command.received sent with
  | .ok (.pin pattern) => pin pinned pattern
  | .ok (.unpin pattern) => unpin pinned pattern
  | .ok _ => (.ok (), pinned)
  | .error e => (.error e, pinned)

/-- The pinned patterns after these lines, from none. -/
def receiveAll (lines : List String) : List WindowPattern :=
  lines.foldl (fun pinned line => (receive pinned line).2) []

/-! ## Patterns that are read as they are listed -/

/-- The pattern can be sent as it is displayed, and is read from there. -/
structure Listed (p : WindowPattern) : Prop where
  spaced : SingleSpaced p.display
  parsed : WindowPattern.parse p.display = some p

theorem display_parts (p : WindowPattern) : p.display = p.parts.1 ++ ":" ++ p.parts.2 := by
  cases p <;> exact congrArg (· ++ _) rfl

theorem splitOnce_display (p : WindowPattern) : splitOnce p.display ':' = some p.parts := by
  have hkind : (p.parts.1.toList.all fun c => c != ':') = true := by
    cases p <;> simp only [WindowPattern.parts] <;> decide
  rw [display_parts]
  generalize p.parts = parts at hkind
  obtain ⟨k, v⟩ := parts
  apply splitOnce_of_notMem
  · intro hmem
    simpa using List.all_eq_true.mp hkind ':' hmem
  · simp

theorem parseBool_boolText (b : Bool) : parseBool (WindowPattern.boolText b) = some b := by
  cases b <;> decide

theorem parse_display (p : WindowPattern) : WindowPattern.parse p.display = some p := by
  unfold WindowPattern.parse
  rw [splitOnce_display]
  cases p with
  | «class» | title | address => rfl
  | floating v | fullscreen v => simp [WindowPattern.parts, parseBool_boolText]
  | pid v =>
    have hrange : -2 ^ (32 - 1) ≤ v.toInt ∧ v.toInt < 2 ^ (32 - 1) :=
      ⟨v.minValue_le_toInt, v.toInt_lt⟩
    simp [WindowPattern.parts, parseSigned_repr hrange]

/-- A word is single-spaced. -/
theorem singleSpaced_word {w : String} (h : IsWord w) : SingleSpaced w :=
  ⟨[w], nofun, fun _ hv => List.mem_singleton.mp hv ▸ h, rfl⟩

theorem isWord_append {v w : String} (hv : IsWord v) (hw : ∀ c ∈ w.toList, isWhitespace c = false) :
    IsWord (v ++ w) := by
  refine ⟨fun he => hv.1 ?_, fun c hc => ?_⟩
  · exact (String.append_eq_empty_iff.mp he).1
  · rw [String.toList_append, List.mem_append] at hc
    exact hc.elim (hv.2 c) (hw c)

theorem isWhitespace_repr (v : Int) : ∀ c ∈ v.repr.toList, isWhitespace c = false := by
  have hdigit : ∀ n : Nat, ∀ c ∈ n.repr.toList, isWhitespace c = false := by
    intro n c hc
    rw [Nat.toList_repr] at hc
    have hd := isAsciiDigit_toDigits hc
    simp only [isAsciiDigit, Bool.and_eq_true, decide_eq_true_eq] at hd
    have hlow : 48 ≤ c.toNat := hd.1
    have hhigh : c.toNat ≤ 57 := hd.2
    simp only [isWhitespace, Bool.or_eq_false_iff, Bool.and_eq_false_iff, decide_eq_false_iff_not,
      beq_eq_false_iff_ne]
    omega
  rw [Int.repr_eq_if]
  split
  · exact hdigit _
  · intro c hc
    rw [String.toList_append, List.mem_append] at hc
    rcases hc with hc | hc
    · rw [List.mem_singleton.mp hc]
      rfl
    · exact hdigit _ c hc

theorem isWhitespace_boolText (b : Bool) :
    ∀ c ∈ (WindowPattern.boolText b).toList, isWhitespace c = false := by
  have hword : IsWord (WindowPattern.boolText b) := by
    cases b <;> exact isWord_of_all (by decide) (by decide)
  exact hword.2

/-- A pattern of a text is displayed as that text, or as one word. -/
theorem parse_cases {spec : String} {p : WindowPattern} (h : WindowPattern.parse spec = some p) :
    p.display = spec ∨ IsWord p.display := by
  unfold WindowPattern.parse at h
  cases hsplit : splitOnce spec ':' with
  | none =>
    rw [hsplit] at h
    cases h
  | some parts =>
    obtain ⟨kind, value⟩ := parts
    have hspec : spec = kind ++ ":" ++ value := by
      apply String.toList_inj.mp
      rw [splitOnce_some hsplit]
      simp
    rw [hsplit] at h
    simp only at h
    split_ifs at h with hclass htitle hpid haddress hfloating hfullscreen
    · cases h
      exact Or.inl (by rw [display_parts, hspec, hclass]; rfl)
    · cases h
      exact Or.inl (by rw [display_parts, hspec, htitle]; rfl)
    · obtain ⟨n, -, rfl⟩ := Option.map_eq_some_iff.mp h
      exact Or.inr (isWord_append (isWord_of_all (by decide) (by decide)) (isWhitespace_repr _))
    · cases h
      exact Or.inl (by rw [display_parts, hspec, haddress]; rfl)
    · obtain ⟨b, -, rfl⟩ := Option.map_eq_some_iff.mp h
      exact Or.inr (isWord_append (isWord_of_all (by decide) (by decide)) (isWhitespace_boolText b))
    · obtain ⟨b, -, rfl⟩ := Option.map_eq_some_iff.mp h
      exact Or.inr (isWord_append (isWord_of_all (by decide) (by decide)) (isWhitespace_boolText b))

theorem listed_of_parse {spec : String} {p : WindowPattern} (hspec : SingleSpaced spec)
    (h : WindowPattern.parse spec = some p) : Listed p := by
  refine ⟨?_, parse_display p⟩
  rcases parse_cases h with hsame | hword
  · rwa [hsame]
  · exact singleSpaced_word hword

/-! ## Lines -/

theorem singleSpaced_of_map {f : Nat → Command} {x : Except String Nat} {cmd : Command}
    (hf : ∀ n, (f n).SingleSpaced) (h : x.map f = .ok cmd) : cmd.SingleSpaced := by
  cases x with
  | error e => cases h
  | ok n =>
    cases h
    exact hf n

/-- The pattern of a command that is received is single-spaced. -/
theorem singleSpaced_of_fromStr {s : String} {cmd : Command} (h : Command.fromStr s = .ok cmd) :
    cmd.SingleSpaced := by
  have hjoin : ∀ {w : String} {ws : List String}, splitWhitespace (trim s) = w :: ws → ws ≠ [] →
      SingleSpaced (join " " ws) := by
    intro w ws hwords hne
    exact ⟨ws, hne, fun v hv => isWord_of_mem (hwords ▸ List.mem_cons_of_mem _ hv), rfl⟩
  unfold Command.fromStr at h
  simp only at h
  split at h
  case h_1 => exact singleSpaced_of_map (f := .switch) (fun _ => trivial) h
  case h_2 => exact singleSpaced_of_map (f := .moveTo) (fun _ => trivial) h
  case h_10 ws hwords =>
    split_ifs at h with hne
    cases h
    exact hjoin hwords hne
  case h_11 ws hwords =>
    split_ifs at h with hne
    cases h
    exact hjoin hwords hne
  case h_13 val _ =>
    split at h
    · cases h
      trivial
    · cases h
  case h_14 => cases h
  all_goals
    cases h
    trivial

/-- What is pinned: no pattern twice, and each of them can be sent as it is listed. -/
structure Sound (pinned : List WindowPattern) : Prop where
  nodup : pinned.Nodup
  listed : ∀ p ∈ pinned, Listed p

theorem pin_sound {pinned : List WindowPattern} {spec : String} (h : Sound pinned)
    (hspec : SingleSpaced spec) : Sound (pin pinned spec).2 := by
  unfold pin
  cases hp : WindowPattern.parse spec with
  | none => exact h
  | some p =>
    by_cases hmem : p ∈ pinned
    · simpa only [if_pos hmem] using h
    · simp only [if_neg hmem]
      refine ⟨?_, fun q hq => ?_⟩
      · exact List.nodup_append.mpr ⟨h.nodup, by simp,
          fun q hq r hr he => hmem (List.mem_singleton.mp hr ▸ he ▸ hq)⟩
      · rcases List.mem_append.mp hq with hq | hq
        · exact h.listed q hq
        · rw [List.mem_singleton.mp hq]
          exact listed_of_parse hspec hp

theorem unpin_sound {pinned : List WindowPattern} {spec : String} (h : Sound pinned) :
    Sound (unpin pinned spec).2 := by
  have herase : ∀ pos, Sound (pinned.eraseIdx pos) := fun pos =>
    ⟨h.nodup.sublist (List.eraseIdx_sublist _ _), fun p hp =>
      h.listed p ((List.eraseIdx_sublist _ _).subset hp)⟩
  unfold unpin
  cases WindowPattern.parse spec with
  | none => exact h
  | some p =>
    simp only
    split
    · exact herase _
    · exact h

theorem receive_sound {pinned : List WindowPattern} (h : Sound pinned) (sent : String) :
    Sound (receive pinned sent).2 := by
  unfold receive
  cases hcmd : Command.received sent with
  | error e => exact h
  | ok cmd =>
    cases cmd with
    | pin pattern => exact pin_sound h (singleSpaced_of_fromStr hcmd)
    | unpin pattern => exact unpin_sound h
    | _ => exact h

theorem receiveAll_sound (lines : List String) : Sound (receiveAll lines) := by
  have hfold : ∀ pinned, Sound pinned →
      Sound (lines.foldl (fun pinned line => (receive pinned line).2) pinned) := by
    induction lines with
    | nil => exact fun _ h => h
    | cons line lines ih =>
      intro pinned h
      rw [List.foldl_cons]
      exact ih (receive pinned line).2 (receive_sound h line)
  exact hfold [] ⟨List.nodup_nil, nofun⟩

/-- A pattern that is pinned is listed, in whichever spelling it came. -/
theorem pin_lists {pinned : List WindowPattern} {spec : String} {p : WindowPattern}
    (h : WindowPattern.parse spec = some p) : p.display ∈ pins (pin pinned spec).2 := by
  unfold pin pins
  rw [h]
  by_cases hmem : p ∈ pinned
  · simpa only [if_pos hmem] using List.mem_map_of_mem hmem
  · simpa only [if_neg hmem] using
      List.mem_map_of_mem (List.mem_append_right _ List.mem_cons_self)

/-! ## Lines that fail to parse -/

/-- The line is no command, or its pattern is none. -/
inductive Unparsed (sent : String) : Prop
  | command (e : String) (line : Command.received sent = .error e)
  | pin (pattern : String) (line : Command.received sent = .ok (.pin pattern))
      (none : WindowPattern.parse pattern = none)
  | unpin (pattern : String) (line : Command.received sent = .ok (.unpin pattern))
      (none : WindowPattern.parse pattern = none)

/-- A line that fails to parse is answered with an error and changes nothing. -/
theorem receive_unparsed (pinned : List WindowPattern) {sent : String} (h : Unparsed sent) :
    ∃ e, receive pinned sent = (.error e, pinned) := by
  unfold receive
  cases h with
  | command e line => exact ⟨e, by rw [line]⟩
  | pin pattern line hnone => exact ⟨invalidWindowPattern pattern, by simp [line, pin, hnone]⟩
  | unpin pattern line hnone =>
    exact ⟨invalidWindowPattern pattern, by simp [line, unpin, hnone]⟩

theorem receive_fails_iff (pinned : List WindowPattern) (sent : String) :
    (∃ e, (receive pinned sent).1 = .error e) ↔ Unparsed sent := by
  constructor
  · rintro ⟨e, he⟩
    unfold receive at he
    cases hcmd : Command.received sent with
    | error e => exact .command e hcmd
    | ok cmd =>
      rw [hcmd] at he
      cases cmd with
      | pin pattern =>
        refine .pin pattern hcmd (Option.eq_none_iff_forall_ne_some.mpr fun p hp => ?_)
        simp [pin, hp] at he
      | unpin pattern =>
        refine .unpin pattern hcmd (Option.eq_none_iff_forall_ne_some.mpr fun p hp => ?_)
        simp [unpin, hp] at he
      | _ => cases he
  · intro h
    obtain ⟨e, he⟩ := receive_unparsed pinned h
    exact ⟨e, by rw [he]⟩

/-- The line with the text of a pattern takes that pattern out. -/
theorem unpin_listed {pinned : List WindowPattern} (h : Sound pinned) {i : Nat}
    {p : WindowPattern} (hi : pinned[i]? = some p) :
    receive pinned (Command.unpin p.display).written = (.ok (), pinned.eraseIdx i) := by
  have hlisted := h.listed p (List.mem_of_getElem? hi)
  have hreceived := (unpin_received p.display).mpr hlisted.spaced
  obtain ⟨hlt, rfl⟩ := List.getElem?_eq_some_iff.mp hi
  have hfind : pinned.findIdx? (· == pinned[i]) = some i := by
    refine List.findIdx?_eq_some_iff_getElem.mpr ⟨hlt, by simp, fun j hj he => ?_⟩
    have hsame := (List.Nodup.getElem_inj_iff h.nodup).mp (beq_iff_eq.mp he)
    omega
  unfold receive
  rw [hreceived]
  simp only [unpin, hlisted.parsed, hfind]

/-- Whatever lines were received before: no pattern is pinned twice, a line fails where it does not
parse and then changes nothing, a pattern that is pinned is listed, and to send `unpin` with an
entry of the list takes out that entry alone. -/
theorem pinned_unpins (lines : List String) :
    (receiveAll lines).Nodup ∧
    (∀ sent, ((∃ e, (receive (receiveAll lines) sent).1 = .error e) ↔ Unparsed sent) ∧
      (Unparsed sent → (receive (receiveAll lines) sent).2 = receiveAll lines)) ∧
    (∀ sent spec p, Command.received sent = .ok (.pin spec) → WindowPattern.parse spec = some p →
      p.display ∈ pins (receive (receiveAll lines) sent).2) ∧
    ∀ i entry, (pins (receiveAll lines))[i]? = some entry →
      receive (receiveAll lines) (Command.unpin entry).written =
        (.ok (), (receiveAll lines).eraseIdx i) := by
  have hsound := receiveAll_sound lines
  refine ⟨hsound.nodup, fun sent => ⟨receive_fails_iff _ sent, fun h => ?_⟩, ?_, ?_⟩
  · obtain ⟨e, he⟩ := receive_unparsed (receiveAll lines) h
    rw [he]
  · intro sent spec p hreceived hparse
    unfold receive
    rw [hreceived]
    exact pin_lists hparse
  · intro i entry hentry
    rw [pins, List.getElem?_map] at hentry
    obtain ⟨p, hp, rfl⟩ := Option.map_eq_some_iff.mp hentry
    exact unpin_listed hsound hp

/-- Two patterns that are pinned under other spellings than they are listed with, the first of them
unpinned again. -/
theorem pinned_unpins_sample :
    let lines := ["pin  floating:yes\n", "pin floating:1\n", "pin pid:+5\n", "pin colour:red\n"]
    pins (receiveAll lines) = ["floating:true", "pid:5"] ∧
    receive (receiveAll lines) (Command.unpin "floating:true").written = (.ok (), [.pid 5]) := by
  intro lines
  have hpins : receiveAll lines = [.floating true, .pid 5] := by decide
  have h := (pinned_unpins lines).2.2.2 0 "floating:true" (by rw [hpins]; decide)
  rw [hpins] at h ⊢
  exact ⟨by decide, h⟩

end Foundrix.HyprWorkspaced
