import Foundrix.HyprWorkspaced.Workspace
import Foundrix.Text.Str

/-!
# The socket of the daemon

The commands and responses of `packages/hypr-workspaced/src/ipc.rs`, the command line of
`main.rs` from which the client makes a command, and both ends of the socket. A message is a
line; a command is read as words, a response as a text with a prefix.

* `Command.fromStr`, `Command.display`, `main`: commands.
* `Response.fromStr`, `Response.display`: responses.
* `command_received_iff`, `response_received_iff`: which of them arrive as they were sent.
-/

namespace Foundrix.HyprWorkspaced

open Text

/-! ## Commands -/

/-- `parse_bool_arg`. No character but the ASCII letters becomes one of theirs in lower case
in the words that are compared. -/
def parseBoolArg (s : String) : Except String Bool :=
  let word := toAsciiLowercase s
  if word = "on" ∨ word = "true" ∨ word = "1" then .ok true
  else if word = "off" ∨ word = "false" ∨ word = "0" then .ok false
  else .error s!"expected on/off, true/false, or 1/0, got '{s}'"

inductive Direction where
  | next
  | prev
deriving DecidableEq, Repr

inductive CollapseMode where
  | all
  | invisible
deriving DecidableEq, Repr

inductive Command where
  | switch (ws : Nat)
  | moveTo (ws : Nat)
  | navigate (dir : Direction)
  | collapse (mode : CollapseMode)
  | swap (dir : Direction)
  | assign
  | pin (pattern : String)
  | unpin (pattern : String)
  | pins
  | debug (on : Bool)
deriving DecidableEq, Repr

namespace Command

def validateWorkspace (ws : Nat) : Except String Nat :=
  match VirtualWorkspace.new ws with
  | some _ => .ok ws
  | none => .error s!"Invalid virtual workspace: {ws} (must be 1-9)"

/-- `FromStr for Command`. -/
def fromStr (s : String) : Except String Command :=
  let invalid := s!"Invalid command: {s}"
  let workspace (n : String) : Except String Nat :=
    match parseUnsigned 8 n with
    | some ws => validateWorkspace ws
    | none => .error invalid
  match splitWhitespace (trim s) with
  | ["switch", n] => (workspace n).map .switch
  | ["move", n] => (workspace n).map .moveTo
  | ["next"] => .ok (.navigate .next)
  | ["prev"] => .ok (.navigate .prev)
  | ["collapse", "all"] => .ok (.collapse .all)
  | ["collapse", "invisible"] => .ok (.collapse .invisible)
  | ["swap", "next"] => .ok (.swap .next)
  | ["swap", "prev"] => .ok (.swap .prev)
  | ["assign"] => .ok .assign
  | "pin" :: pattern => if pattern ≠ [] then .ok (.pin (join " " pattern)) else .error invalid
  | "unpin" :: pattern => if pattern ≠ [] then .ok (.unpin (join " " pattern)) else .error invalid
  | ["pins"] => .ok .pins
  | ["debug", val] =>
    match parseBoolArg val with
    | .ok on => .ok (.debug on)
    | .error _ => .error invalid
  | _ => .error invalid

/-- `Display for Command`. -/
def display : Command → String
  | switch ws => s!"switch {ws}"
  | moveTo ws => s!"move {ws}"
  | navigate .next => "next"
  | navigate .prev => "prev"
  | collapse .all => "collapse all"
  | collapse .invisible => "collapse invisible"
  | swap .next => "swap next"
  | swap .prev => "swap prev"
  | assign => "assign"
  | pin pattern => "pin " ++ pattern
  | unpin pattern => "unpin " ++ pattern
  | pins => "pins"
  | debug on => "debug " ++ (if on then "on" else "off")

/-- The line that the client writes. -/
def written (cmd : Command) : String := cmd.display ++ "\n"

/-- What `handle_client` makes of what it is sent. -/
def received (sent : String) : Except String Command := fromStr (trim (readLine sent))

end Command

/-! ## The command line -/

/-- The subcommands; a workspace is a `u8`. -/
inductive Commands where
  | daemon (onHyprIpcReconnectRestart : Option String)
  | switch (workspace : Nat)
  | move (workspace : Nat)
  | next
  | prev
  | swap (direction : String)
  | collapse (mode : String)
  | assign
  | pin (pattern : List String)
  | unpin (pattern : List String)
  | pins
  | debug (enabled : String)
deriving DecidableEq, Repr

/-- What the process does. -/
inductive Action where
  | runDaemon (onHyprIpcReconnectRestart : Option String)
  | sendCommand (cmd : Command)
  | sendCommandWithOutput (cmd : Command)
  /-- Return an error. -/
  | fail (message : String)
  /-- Print a message and exit with code 1. -/
  | exit (message : String)
deriving DecidableEq, Repr

def main : Commands → Action
  | .daemon restart => .runDaemon restart
  | .switch workspace =>
    match Command.validateWorkspace workspace with
    | .ok ws => .sendCommand (.switch ws)
    | .error e => .fail e
  | .move workspace =>
    match Command.validateWorkspace workspace with
    | .ok ws => .sendCommand (.moveTo ws)
    | .error e => .fail e
  | .next => .sendCommand (.navigate .next)
  | .prev => .sendCommand (.navigate .prev)
  | .swap direction =>
    if direction = "next" then .sendCommand (.swap .next)
    else if direction = "prev" then .sendCommand (.swap .prev)
    else .exit s!"Invalid swap direction: {direction}. Use 'next' or 'prev'."
  | .collapse mode =>
    if mode = "all" then .sendCommand (.collapse .all)
    else if mode = "invisible" then .sendCommand (.collapse .invisible)
    else .exit s!"Invalid collapse mode: {mode}. Use 'all' or 'invisible'."
  | .assign => .sendCommand .assign
  | .pin pattern => .sendCommand (.pin (join " " pattern))
  | .unpin pattern => .sendCommand (.unpin (join " " pattern))
  | .pins => .sendCommandWithOutput .pins
  | .debug enabled =>
    match parseBoolArg enabled with
    | .ok on => .sendCommand (.debug on)
    | .error e => .exit e

/-- The command that the process sends to the daemon. -/
def Action.command : Action → Option Command
  | .sendCommand cmd | .sendCommandWithOutput cmd => some cmd
  | _ => none

/-! ## Commands that arrive -/

/-- One or more words, with a single blank between any two. -/
def SingleSpaced (pattern : String) : Prop :=
  ∃ ws : List String, ws ≠ [] ∧ (∀ w ∈ ws, IsWord w) ∧ pattern = join " " ws

/-- The patterns of a command are single-spaced. -/
def Command.SingleSpaced : Command → Prop
  | .pin pattern | .unpin pattern => HyprWorkspaced.SingleSpaced pattern
  | _ => True

/-- The part of a text that is read as its first line. -/
def firstLine (s : String) : String := String.ofList (s.toList.takeWhile (· != '\n'))

theorem readLine_line (s : String) : readLine (s ++ "\n") = firstLine s ++ "\n" := by
  have hlist : ∀ l : List Char, (l ++ ['\n']).takeWhile (· != '\n') ++
      ((l ++ ['\n']).dropWhile (· != '\n')).take 1 = l.takeWhile (· != '\n') ++ ['\n'] := by
    intro l
    induction l with
    | nil => rfl
    | cons c l ih =>
      by_cases hc : c = '\n'
      · subst hc
        rfl
      · simpa [hc] using ih
  apply String.toList_inj.mp
  have hs : (s ++ "\n").toList = s.toList ++ ['\n'] := by simp
  rw [readLine, String.toList_ofList, hs, hlist, firstLine, String.toList_append,
    String.toList_ofList]
  rfl

theorem firstLine_of_notMem {s : String} (h : '\n' ∉ s.toList) : firstLine s = s := by
  have hall : s.toList.takeWhile (· != '\n') = s.toList := by
    rw [List.takeWhile_eq_self_iff]
    intro c hc
    simpa using fun he : c = '\n' => h (he ▸ hc)
  rw [firstLine, hall, String.ofList_toList]

theorem notMem_firstLine (s : String) : '\n' ∉ (firstLine s).toList := by
  rw [firstLine, String.toList_ofList]
  intro h
  simpa using List.mem_takeWhile_imp h

theorem firstLine_word {w : String} (hw : IsWord w) (text : String) :
    firstLine (w ++ " " ++ text) = w ++ " " ++ firstLine text := by
  have hno : ∀ c ∈ w.toList ++ [' '], (c != '\n') = true := by
    intro c hc
    rcases List.mem_append.mp hc with hc | hc
    · have hblank := hw.2 c hc
      by_contra he
      obtain rfl : c = '\n' := by simpa using he
      cases hblank
    · obtain rfl := List.mem_singleton.mp hc
      rfl
  apply String.toList_inj.mp
  have hlist : (w ++ " " ++ text).toList = (w.toList ++ [' ']) ++ text.toList := by simp
  rw [firstLine, hlist, List.takeWhile_append_of_pos hno]
  simp [firstLine]

/-- The words of the line with which a pattern is sent. -/
theorem splitWhitespace_sent {w : String} (hw : IsWord w) (pattern : String) :
    splitWhitespace (trim (trim (readLine (w ++ " " ++ pattern ++ "\n")))) =
      w :: splitWhitespace (firstLine pattern) := by
  have hend : ∀ t : String, splitWhitespace (t ++ "\n") = splitWhitespace t := by
    intro t
    have hlist : (t ++ "\n").toList = t.toList ++ '\n' :: [] := by simp
    unfold splitWhitespace
    rw [hlist, wordChars_append rfl]
    simp
  rw [splitWhitespace_trim, splitWhitespace_trim, readLine_line, hend, firstLine_word hw,
    splitWhitespace_cons hw]

theorem mem_join {ws : List String} {c : Char} (h : c ∈ (join " " ws).toList) :
    c = ' ' ∨ ∃ w ∈ ws, c ∈ w.toList := by
  induction ws with
  | nil => cases h
  | cons w ws ih =>
    cases ws with
    | nil => exact Or.inr ⟨w, List.mem_cons_self, h⟩
    | cons v vs =>
      simp only [join, String.toList_append, List.mem_append] at h
      rcases h with (h | h) | h
      · exact Or.inr ⟨w, List.mem_cons_self, h⟩
      · exact Or.inl (List.mem_singleton.mp h)
      · rcases ih h with hc | ⟨u, hu, hc⟩
        · exact Or.inl hc
        · exact Or.inr ⟨u, List.mem_cons_of_mem _ hu, hc⟩

/-- The words of the first line of a pattern make up the pattern where it is single-spaced. -/
theorem singleSpaced_iff (pattern : String) : SingleSpaced pattern ↔
    splitWhitespace (firstLine pattern) ≠ [] ∧
      join " " (splitWhitespace (firstLine pattern)) = pattern := by
  constructor
  · rintro ⟨ws, hne, hwords, rfl⟩
    have hline : '\n' ∉ (join " " ws).toList := by
      intro h
      rcases mem_join h with h | ⟨w, hw, h⟩
      · exact absurd h (by decide)
      · exact absurd ((hwords w hw).2 _ h) (by decide)
    rw [firstLine_of_notMem hline, splitWhitespace_join hwords]
    exact ⟨hne, rfl⟩
  · rintro ⟨hne, hjoin⟩
    exact ⟨_, hne, fun w hw => isWord_of_mem hw, hjoin.symm⟩

theorem fromStr_pin {s : String} {ws : List String} (h : splitWhitespace (trim s) = "pin" :: ws) :
    Command.fromStr s = if ws ≠ [] then .ok (.pin (join " " ws))
      else .error s!"Invalid command: {s}" := by
  unfold Command.fromStr
  rw [h]
  rfl

theorem fromStr_unpin {s : String} {ws : List String}
    (h : splitWhitespace (trim s) = "unpin" :: ws) :
    Command.fromStr s = if ws ≠ [] then .ok (.unpin (join " " ws))
      else .error s!"Invalid command: {s}" := by
  unfold Command.fromStr
  rw [h]
  rfl

/-- A command of which the words of the pattern are read arrives where they make it up. -/
theorem pattern_received {make : String → Command} (hmake : ∀ p q, make p = make q → p = q)
    {r : Except String Command} {e pattern : String}
    (h : r = if splitWhitespace (firstLine pattern) ≠ [] then
        .ok (make (join " " (splitWhitespace (firstLine pattern)))) else .error e) :
    r = .ok (make pattern) ↔ SingleSpaced pattern := by
  rw [singleSpaced_iff, h]
  by_cases hne : splitWhitespace (firstLine pattern) = []
  · simp [hne]
  · rw [if_pos hne]
    refine ⟨fun heq => ⟨hne, hmake _ _ (Except.ok.inj heq)⟩, fun hjoin => ?_⟩
    rw [hjoin.2]

theorem pin_received (pattern : String) :
    Command.received (Command.pin pattern).written = .ok (.pin pattern) ↔ SingleSpaced pattern := by
  have hwritten : (Command.pin pattern).written = "pin" ++ " " ++ pattern ++ "\n" := rfl
  have hwords := splitWhitespace_sent (w := "pin") (isWord_of_all (by decide) (by decide)) pattern
  exact pattern_received (fun _ _ => Command.pin.inj) (hwritten ▸ fromStr_pin hwords)

theorem unpin_received (pattern : String) :
    Command.received (Command.unpin pattern).written = .ok (.unpin pattern) ↔
      SingleSpaced pattern := by
  have hwritten : (Command.unpin pattern).written = "unpin" ++ " " ++ pattern ++ "\n" := rfl
  have hwords := splitWhitespace_sent (w := "unpin") (isWord_of_all (by decide) (by decide)) pattern
  exact pattern_received (fun _ _ => Command.unpin.inj) (hwritten ▸ fromStr_unpin hwords)

/-- The workspaces that the client sends. -/
theorem validateWorkspace_ok {ws ws' : Nat} (h : Command.validateWorkspace ws = .ok ws') :
    ws' = ws ∧ 1 ≤ ws ∧ ws ≤ 9 := by
  unfold Command.validateWorkspace VirtualWorkspace.new at h
  by_cases hvalid : 1 ≤ ws ∧ ws ≤ 9
  · rw [dif_pos hvalid] at h
    exact ⟨(Except.ok.inj h).symm, hvalid⟩
  · rw [dif_neg hvalid] at h
    cases h

theorem workspace_received {ws : Nat} (h : 1 ≤ ws ∧ ws ≤ 9) :
    Command.received (Command.switch ws).written = .ok (.switch ws) ∧
    Command.received (Command.moveTo ws).written = .ok (.moveTo ws) := by
  have hall : ∀ n < 10, 1 ≤ n →
      Command.received (Command.switch n).written = .ok (.switch n) ∧
      Command.received (Command.moveTo n).written = .ok (.moveTo n) := by decide +kernel
  exact hall ws (by omega) h.1

/-- The client sends the numbers of workspaces only. -/
theorem main_workspace {args : Commands} {ws : Nat}
    (h : (main args).command = some (.switch ws) ∨ (main args).command = some (.moveTo ws)) :
    1 ≤ ws ∧ ws ≤ 9 := by
  cases args with
  | switch workspace =>
    simp only [main] at h
    cases hvalid : Command.validateWorkspace workspace with
    | error e => simp [hvalid, Action.command] at h
    | ok ws' =>
      obtain ⟨rfl, hrange⟩ := validateWorkspace_ok hvalid
      obtain rfl : ws' = ws := by simpa [hvalid, Action.command] using h
      exact hrange
  | move workspace =>
    simp only [main] at h
    cases hvalid : Command.validateWorkspace workspace with
    | error e => simp [hvalid, Action.command] at h
    | ok ws' =>
      obtain ⟨rfl, hrange⟩ := validateWorkspace_ok hvalid
      obtain rfl : ws' = ws := by simpa [hvalid, Action.command] using h
      exact hrange
  | swap direction =>
    simp only [main] at h
    split_ifs at h <;> simp [Action.command] at h
  | collapse mode =>
    simp only [main] at h
    split_ifs at h <;> simp [Action.command] at h
  | debug enabled =>
    simp only [main] at h
    cases hparse : parseBoolArg enabled <;> simp [hparse, Action.command] at h
  | _ => simp [main, Action.command] at h

/-- A command that the client makes of its command line arrives as it was exactly if its
pattern, where it has one, is single-spaced. -/
theorem command_received_iff (args : Commands) (cmd : Command)
    (h : (main args).command = some cmd) :
    Command.received cmd.written = .ok cmd ↔ cmd.SingleSpaced := by
  cases cmd with
  | pin pattern => exact pin_received pattern
  | unpin pattern => exact unpin_received pattern
  | switch ws => exact iff_of_true (workspace_received (main_workspace (Or.inl h))).1 trivial
  | moveTo ws => exact iff_of_true (workspace_received (main_workspace (Or.inr h))).2 trivial
  | navigate dir => cases dir <;> exact iff_of_true (by decide) trivial
  | collapse mode => cases mode <;> exact iff_of_true (by decide) trivial
  | swap dir => cases dir <;> exact iff_of_true (by decide) trivial
  | assign => exact iff_of_true (by decide) trivial
  | pins => exact iff_of_true (by decide) trivial
  | debug on => cases on <;> exact iff_of_true (by decide) trivial

theorem command_received_iff_sample :
    Command.received (Command.pin "class:Firefox title:Mail").written =
      .ok (.pin "class:Firefox title:Mail") := by
  refine (command_received_iff (.pin ["class:Firefox", "title:Mail"]) _ (by decide)).mpr ?_
  exact ⟨["class:Firefox", "title:Mail"], by simp, by simp [IsWord]; decide, by decide⟩

/-- A pattern with two blanks in a row arrives with one. -/
theorem blanks_lost : ¬ ∀ (args : Commands) (cmd : Command), (main args).command = some cmd →
    Command.received cmd.written = .ok cmd := by
  intro h
  exact absurd (h (.pin ["title:My  Page"]) (.pin "title:My  Page") (by decide)) (by decide)

/-! ## Responses -/

inductive Response where
  | ok
  | data (data : String)
  | error (msg : String)
deriving DecidableEq, Repr

namespace Response

/-- `FromStr for Response`. -/
def fromStr (s : String) : Except String Response :=
  let trimmed := trim s
  if trimmed = "ok" then .ok .ok
  else
    match stripPrefix trimmed "error: " with
    | some msg => .ok (.error msg)
    | none =>
      match stripPrefix trimmed "data: " with
      | some text => .ok (.data text)
      | none => .error s!"Invalid command: Invalid response: {s}"

/-- `Display for Response`. -/
def display : Response → String
  | ok => "ok"
  | data d => "data: " ++ d
  | error msg => "error: " ++ msg

/-- The line that `handle_client` writes. -/
def written (r : Response) : String := r.display ++ "\n"

/-- What the client reads of what it is sent. -/
def received (sent : String) : Except String Response := fromStr (readLine sent)

/-- The response to `pins`. -/
def pins (patterns : List String) : Response := .data (join "\n" patterns)

end Response

/-- What `send_command_with_output` prints, or the error that it returns. -/
def sendCommandWithOutput (sent : String) : Except String String :=
  match Response.received sent with
  | .ok .ok => .ok ""
  | .ok (.data data) => .ok (data ++ "\n")
  | .ok (.error msg) => .error msg
  | .error e => .error e

/-! ## Responses that arrive -/

/-- A text of one line that does not end with white space. -/
def OneLine (text : String) : Prop :=
  '\n' ∉ text.toList ∧ ∃ c, text.toList.getLast? = some c ∧ isWhitespace c = false

def Response.OneLine : Response → Prop
  | .ok => True
  | .data text | .error text => HyprWorkspaced.OneLine text

/-- What is left of a payload: its first line without the white space at the end. -/
def payload (text : String) : String :=
  String.ofList ((firstLine text).toList.rdropWhile isWhitespace)

theorem payload_eq_iff (text : String) :
    (payload text = text ∧ payload text ≠ "") ↔ OneLine text := by
  constructor
  · rintro ⟨heq, hne⟩
    have hlist : (firstLine text).toList.rdropWhile isWhitespace = text.toList := by
      rw [← String.toList_ofList (l := (firstLine text).toList.rdropWhile isWhitespace)]
      exact congrArg String.toList heq
    refine ⟨fun hmem => ?_, ?_⟩
    · rw [← hlist] at hmem
      exact notMem_firstLine text ((List.rdropWhile_prefix _ _).subset hmem)
    · have hne' : (firstLine text).toList.rdropWhile isWhitespace ≠ [] := by
        intro hnil
        exact hne (by rw [payload, hnil])
      rw [← hlist]
      exact ⟨_, List.getLast?_eq_some_getLast hne', by
        simpa using List.rdropWhile_last_not isWhitespace _ hne'⟩
  · rintro ⟨hline, c, hlast, hc⟩
    have heq : payload text = text := by
      rw [payload, firstLine_of_notMem hline, rdropWhile_of_getLast, String.ofList_toList]
      intro c' hc'
      rw [hlast] at hc'
      exact Option.some.inj hc' ▸ hc
    refine ⟨heq, fun hnil => ?_⟩
    rw [heq] at hnil
    rw [hnil] at hlast
    cases hlast

/-- What the client makes of a line: the bare name of a response, or the name with what is
left of the payload. -/
theorem trim_sent (name text : String) {l : List Char} {c : Char} (hname : name.toList = l ++ [c])
    (hword : IsWord name) :
    trim (readLine (name ++ " " ++ text ++ "\n")) =
      if payload text = "" then name else name ++ " " ++ payload text := by
  have hlist : (readLine (name ++ " " ++ text ++ "\n")).toList =
      l ++ c :: ' ' :: ((firstLine text).toList ++ ['\n']) := by
    rw [readLine_line, firstLine_word hword]
    simp [hname]
  have hhead : ∀ x, (l ++ c :: ' ' :: ((firstLine text).toList ++ ['\n'])).head? = some x →
      isWhitespace x = false := by
    intro x hx
    refine hword.2 x ?_
    rw [hname]
    cases l with
    | nil => simp at hx; simp [hx]
    | cons y ys => simp at hx; simp [hx]
  have hc : isWhitespace c = false := hword.2 c (by rw [hname]; simp)
  have hblank : ((firstLine text).toList ++ ['\n']).rdropWhile isWhitespace =
      (payload text).toList := by
    rw [List.rdropWhile_concat_pos _ _ _ rfl, payload, String.toList_ofList]
  apply String.toList_inj.mp
  rw [trim, String.toList_ofList, trimChars, hlist, dropWhile_of_head hhead,
    rdropWhile_append_cons hc, rdropWhile_cons, hblank]
  by_cases hnil : payload text = ""
  · simp [hnil, hname, List.rdropWhile_singleton, show isWhitespace ' ' = true from rfl]
  · have hnil' : (payload text).toList ≠ [] := fun h => hnil (String.toList_inj.mp h)
    rw [if_neg hnil, if_neg hnil']
    simp [hname]

theorem fromStr_data {s text : String} (h : trim s = "data: " ++ text) :
    Response.fromStr s = .ok (.data text) := by
  have hok : "data: " ++ text ≠ "ok" := fun he => by
    have hlist := congrArg String.toList he
    simp at hlist
  have herror : stripPrefix ("data: " ++ text) "error: " = none := by
    simp [stripPrefix, startsWith]
  unfold Response.fromStr
  simp only [h, if_neg hok, herror, stripPrefix_append]

theorem fromStr_error {s text : String} (h : trim s = "error: " ++ text) :
    Response.fromStr s = .ok (.error text) := by
  have hok : "error: " ++ text ≠ "ok" := fun he => by
    have hlist := congrArg String.toList he
    simp at hlist
  unfold Response.fromStr
  simp only [h, if_neg hok, stripPrefix_append]

/-- The bare name of a response is none. -/
theorem fromStr_bare {s : String} (h : trim s = "data:" ∨ trim s = "error:") :
    Response.fromStr s = .error s!"Invalid command: Invalid response: {s}" := by
  unfold Response.fromStr
  rcases h with h | h
  · simp only [h]
    rfl
  · simp only [h]
    rfl

/-- A response with a payload arrives as it was where the payload is one line. -/
theorem payload_received {r : Except String Response} {make : String → Response} {text : String}
    (hmake : ∀ a b, make a = make b → a = b)
    (hbare : payload text = "" → ∃ e, r = .error e)
    (hread : payload text ≠ "" → r = .ok (make (payload text))) :
    r = .ok (make text) ↔ OneLine text := by
  rw [← payload_eq_iff]
  by_cases hnil : payload text = ""
  · obtain ⟨e, he⟩ := hbare hnil
    simp [he, hnil]
  · rw [hread hnil]
    refine ⟨fun h => ⟨hmake _ _ (Except.ok.inj h), hnil⟩, fun h => ?_⟩
    rw [h.1]

theorem data_received (text : String) :
    Response.received (Response.data text).written = .ok (.data text) ↔ OneLine text := by
  have htrim := trim_sent "data:" text (l := "data".toList) (c := ':') (by decide)
    (isWord_of_all (by decide) (by decide))
  refine payload_received (fun _ _ => Response.data.inj) (fun hnil => ?_) fun hne => ?_
  · exact ⟨_, fromStr_bare (Or.inl (htrim.trans (if_pos hnil)))⟩
  · exact fromStr_data (htrim.trans (if_neg hne))

theorem error_received (text : String) :
    Response.received (Response.error text).written = .ok (.error text) ↔ OneLine text := by
  have htrim := trim_sent "error:" text (l := "error".toList) (c := ':') (by decide)
    (isWord_of_all (by decide) (by decide))
  refine payload_received (fun _ _ => Response.error.inj) (fun hnil => ?_) fun hne => ?_
  · exact ⟨_, fromStr_bare (Or.inr (htrim.trans (if_pos hnil)))⟩
  · exact fromStr_error (htrim.trans (if_neg hne))

/-- Patterns on lines of their own are one line where there is one of them. -/
theorem oneLine_join (patterns : List String) :
    OneLine (join "\n" patterns) ↔ ∃ p, patterns = [p] ∧ OneLine p := by
  rcases patterns with _ | ⟨p, _ | ⟨q, rest⟩⟩
  · simp [join, OneLine]
  · simp [join]
  · simp [join, OneLine]

/-- The payload of a response is printed exactly if it is received. -/
theorem printed_iff (sent text : String) :
    sendCommandWithOutput sent = .ok (text ++ "\n") ↔ Response.received sent = .ok (.data text) := by
  unfold sendCommandWithOutput
  rcases Response.received sent with e | (_ | data | msg)
  · simp
  · have hne : "" ≠ text ++ "\n" := fun he => by
      have hlist := congrArg String.toList he
      simp at hlist
    simp [hne]
  · simp
  · simp

/-- A response arrives as it was exactly if its payload, where it has one, is a line that does
not end with white space. The answer to `pins` does, and its patterns are printed, exactly if
there is one pattern of that kind. -/
theorem response_received_iff (r : Response) (patterns : List String) :
    (Response.received r.written = .ok r ↔ r.OneLine) ∧
    (Response.received (Response.pins patterns).written = .ok (.pins patterns) ↔
      ∃ p, patterns = [p] ∧ OneLine p) ∧
    (sendCommandWithOutput (Response.pins patterns).written = .ok (join "\n" patterns ++ "\n") ↔
      ∃ p, patterns = [p] ∧ OneLine p) := by
  have hpins : Response.received (Response.pins patterns).written = .ok (.pins patterns) ↔
      ∃ p, patterns = [p] ∧ OneLine p := (data_received _).trans (oneLine_join patterns)
  refine ⟨?_, hpins, ?_⟩
  · cases r with
    | ok => exact iff_of_true (by decide) trivial
    | data text => exact data_received text
    | error text => exact error_received text
  · rw [← hpins]
    exact printed_iff _ _

/-- Of two pinned patterns only the first one arrives. -/
theorem second_pin_lost :
    ¬ ∀ r : Response, Response.received r.written = .ok r := by
  intro h
  exact absurd (h (.pins ["class:Firefox", "class:Mattermost"])) (by decide)

end Foundrix.HyprWorkspaced
