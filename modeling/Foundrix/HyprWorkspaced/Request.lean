import Foundrix.HyprWorkspaced.Workspace
import Foundrix.Text.Lua

/-!
# Requests as Lua text

`Request` of `packages/hypr-workspaced/src/request.rs`: every variant is written as a Lua call
with one table, in which the values that come from elsewhere are string literals.

* `luaString`: the quoting of a string.
* `Request.lua`: the text of a request; `Request.call`: the call that it stands for.
* `request_read`: what Lua reads in the text.
-/

namespace Foundrix.HyprWorkspaced

open Text

/-! ## String literals -/

def isAsciiControl (c : Char) : Bool := c.toNat < 32 || c.toNat == 127

/-- A number written with at least three digits. -/
def threeDigits (n : Nat) : List Char :=
  let digits := Nat.toDigits 10 n
  List.replicate (3 - digits.length) '0' ++ digits

def luaChar (c : Char) : List Char :=
  if c = '"' then ['\\', '"']
  else if c = '\\' then ['\\', '\\']
  else if c = '\n' then ['\\', 'n']
  else if c = '\r' then ['\\', 'r']
  else if c = '\t' then ['\\', 't']
  -- Lua reads up to three decimal digits after a backslash as a byte
  else if isAsciiControl c then '\\' :: threeDigits c.toNat
  else [c]

/-- `lua_string`. -/
def luaString (value : String) : String :=
  String.ofList ('"' :: value.toList.flatMap luaChar ++ ['"'])

/-! ## Requests -/

inductive Request where
  | focusWorkspace (workspace : Int)
  | moveWindowSilent (window : String) (workspace : Int)
  | moveWindow (window : String) (workspace : Int)
  | moveActiveWindow (workspace : Int)
  | moveWorkspaceToMonitor (workspace : Int) (monitor : String)
  | focusWindow (window : String)
  | workspaceRule (workspace : Int) (monitor : String) (default_ : Bool)
deriving DecidableEq, Repr

namespace Request

def workspaceText (id : Int) : String := luaString (toString id)

def windowText (address : String) : String := luaString ("address:" ++ address)

/-- `Display for bool`. -/
def boolText (b : Bool) : String := if b then "true" else "false"

def lua : Request → String
  | focusWorkspace id => "hl.dsp.focus(\x7b workspace = " ++ workspaceText id ++ " \x7d)"
  | moveWindowSilent address id =>
    "hl.dsp.window.move(\x7b window = " ++ windowText address ++ ", workspace = " ++
      workspaceText id ++ ", follow = false \x7d)"
  | moveWindow address id =>
    "hl.dsp.window.move(\x7b window = " ++ windowText address ++ ", workspace = " ++
      workspaceText id ++ " \x7d)"
  | moveActiveWindow id => "hl.dsp.window.move(\x7b workspace = " ++ workspaceText id ++ " \x7d)"
  | moveWorkspaceToMonitor id monitor =>
    "hl.dsp.workspace.move(\x7b workspace = " ++ workspaceText id ++ ", monitor = " ++
      luaString monitor ++ " \x7d)"
  | focusWindow address => "hl.dsp.focus(\x7b window = " ++ windowText address ++ " \x7d)"
  | workspaceRule id monitor default_ =>
    "hl.workspace_rule(\x7b workspace = " ++ workspaceText id ++ ", monitor = " ++
      luaString monitor ++ ", persistent = true, default = " ++ boolText default_ ++ " \x7d)"

/-! ### The calls meant -/

/-- The function of a variant. -/
def function : Request → List String
  | focusWorkspace _ | focusWindow _ => ["hl", "dsp", "focus"]
  | moveWindowSilent _ _ | moveWindow _ _ | moveActiveWindow _ => ["hl", "dsp", "window", "move"]
  | moveWorkspaceToMonitor _ _ => ["hl", "dsp", "workspace", "move"]
  | workspaceRule _ _ _ => ["hl", "workspace_rule"]

/-- The fields of a variant: the texts given, and the switches. -/
def fields : Request → List (String × (String ⊕ Bool))
  | focusWorkspace id | moveActiveWindow id => [("workspace", .inl (toString id))]
  | moveWindowSilent address id =>
    [("window", .inl ("address:" ++ address)), ("workspace", .inl (toString id)),
      ("follow", .inr false)]
  | moveWindow address id =>
    [("window", .inl ("address:" ++ address)), ("workspace", .inl (toString id))]
  | moveWorkspaceToMonitor id monitor =>
    [("workspace", .inl (toString id)), ("monitor", .inl monitor)]
  | focusWindow address => [("window", .inl ("address:" ++ address))]
  | workspaceRule id monitor default_ =>
    [("workspace", .inl (toString id)), ("monitor", .inl monitor), ("persistent", .inr true),
      ("default", .inr default_)]

/-- The call of the function with these fields, byte for byte. -/
def call (r : Request) : Lua.Call where
  function := r.function.map utf8
  fields := r.fields.map fun f => (utf8 f.1, match f.2 with
    | .inl text => .string (utf8 text)
    | .inr b => .bool b)

end Request

/-! ## What Lua reads -/

theorem threeDigits_bytes {n : Nat} (h : n < 128) :
    (threeDigits n).flatMap String.utf8EncodeChar = [UInt8.ofNat (48 + n / 100),
      UInt8.ofNat (48 + n / 10 % 10), UInt8.ofNat (48 + n % 10)] := by
  have hall : ∀ n < 128, (threeDigits n).flatMap String.utf8EncodeChar =
      [UInt8.ofNat (48 + n / 100), UInt8.ofNat (48 + n / 10 % 10), UInt8.ofNat (48 + n % 10)] := by
    decide
  exact hall n h

/-- A character that is not escaped has no byte that means something within a string. -/
theorem utf8EncodeChar_plain {c : Char} (hquote : c ≠ '"') (hback : c ≠ '\\') (hn : c ≠ '\n')
    (hr : c ≠ '\r') : ∀ b ∈ String.utf8EncodeChar c, b ≠ 34 ∧ b ≠ 92 ∧ b ≠ 10 ∧ b ≠ 13 := by
  intro b hb
  rcases Nat.lt_or_ge c.toNat 128 with hlow | hhigh
  · rw [utf8EncodeChar_ascii hlow] at hb
    obtain rfl := List.mem_singleton.mp hb
    have hne : ∀ d : Char, d.toNat < 128 → c ≠ d → charByte c ≠ charByte d := by
      intro d hd hcd he
      have htoNat := congrArg UInt8.toNat he
      simp only [charByte, UInt8.toNat_ofNat'] at htoNat
      exact hcd (Char.toNat_inj.mp (by omega))
    exact ⟨hne '"' (by decide) hquote, hne '\\' (by decide) hback, hne '\n' (by decide) hn,
      hne '\r' (by decide) hr⟩
  · have hlarge := utf8EncodeChar_high hhigh b hb
    refine ⟨?_, ?_, ?_, ?_⟩ <;>
    · rintro rfl
      exact absurd hlarge (by decide)

/-- What is written for a character is read as its bytes. -/
theorem luaChar_read (c : Char) (bytes : List UInt8) (ts : List Lua.Token) :
    Lua.lexBytes (.string bytes, ts) ((luaChar c).flatMap String.utf8EncodeChar) =
      some (.string (bytes ++ String.utf8EncodeChar c), ts) := by
  unfold luaChar
  split_ifs with hquote hback hn hr ht hcontrol
  · subst hquote
    rfl
  · subst hback
    rfl
  · subst hn
    rfl
  · subst hr
    rfl
  · subst ht
    rfl
  · have hlow : c.toNat < 128 := by
      simp only [isAsciiControl, Bool.or_eq_true, decide_eq_true_eq, beq_iff_eq] at hcontrol
      omega
    rw [List.flatMap_cons, threeDigits_bytes hlow, utf8EncodeChar_ascii hlow]
    exact Lua.lex_decimal (by omega) bytes ts
  · rw [List.flatMap_singleton]
    exact Lua.lex_plain (utf8EncodeChar_plain hquote hback hn hr) bytes ts

theorem luaChars_read (l : List Char) (bytes : List UInt8) (ts : List Lua.Token) :
    Lua.lexBytes (.string bytes, ts) ((l.flatMap luaChar).flatMap String.utf8EncodeChar) =
      some (.string (bytes ++ l.flatMap String.utf8EncodeChar), ts) := by
  induction l generalizing bytes with
  | nil => simp [Lua.lexBytes]
  | cons c l ih =>
    rw [List.flatMap_cons, List.flatMap_append, Lua.lexBytes_append, luaChar_read,
      Option.bind_some, ih, List.flatMap_cons, List.append_assoc]

/-- The literal of a string is read as one token, of which the bytes are those of the string. -/
theorem luaString_read (value : String) (ts : List Lua.Token) :
    Lua.lexBytes (.between, ts) (utf8 (luaString value)) =
      some (.between, ts ++ [.string (utf8 value)]) := by
  have hvalue : utf8 value = value.toList.flatMap String.utf8EncodeChar := by
    rw [← utf8_flatMap, String.ofList_toList]
  have hclose : ∀ bytes : List UInt8, Lua.lexBytes (.string bytes, ts) [34] =
      some (.between, ts ++ [.string bytes]) := fun _ => rfl
  have hopen : ∀ input : List UInt8, Lua.lexBytes (.between, ts) (34 :: input) =
      Lua.lexBytes (.string [], ts) input := fun _ => rfl
  have hquote : String.utf8EncodeChar '"' = [34] := rfl
  rw [luaString, utf8_flatMap, List.cons_append, List.flatMap_cons, List.flatMap_append, hquote,
    List.singleton_append, hopen, Lua.lexBytes_append, luaChars_read, Option.bind_some,
    List.flatMap_singleton, hquote, hclose, List.nil_append, hvalue]

/-! ## The templates -/

section Templates

variable (ts : List Lua.Token)

/-- The name of a text. -/
abbrev word (text : String) : Lua.Token := .name (utf8 text)

theorem read_focus_workspace :
    Lua.lexBytes (.between, ts) (utf8 "hl.dsp.focus(\x7b workspace = ") =
      some (.between, ts ++ [word "hl", .mark .dot, word "dsp", .mark .dot, word "focus",
        .mark .openCall, .mark .openTable, word "workspace", .mark .equals]) :=
  Lua.lexBytes_between (by decide) ts

theorem read_focus_window :
    Lua.lexBytes (.between, ts) (utf8 "hl.dsp.focus(\x7b window = ") =
      some (.between, ts ++ [word "hl", .mark .dot, word "dsp", .mark .dot, word "focus",
        .mark .openCall, .mark .openTable, word "window", .mark .equals]) :=
  Lua.lexBytes_between (by decide) ts

theorem read_move_window :
    Lua.lexBytes (.between, ts) (utf8 "hl.dsp.window.move(\x7b window = ") =
      some (.between, ts ++ [word "hl", .mark .dot, word "dsp", .mark .dot, word "window",
        .mark .dot, word "move", .mark .openCall, .mark .openTable, word "window",
        .mark .equals]) :=
  Lua.lexBytes_between (by decide) ts

theorem read_move_active :
    Lua.lexBytes (.between, ts) (utf8 "hl.dsp.window.move(\x7b workspace = ") =
      some (.between, ts ++ [word "hl", .mark .dot, word "dsp", .mark .dot, word "window",
        .mark .dot, word "move", .mark .openCall, .mark .openTable, word "workspace",
        .mark .equals]) :=
  Lua.lexBytes_between (by decide) ts

theorem read_move_workspace :
    Lua.lexBytes (.between, ts) (utf8 "hl.dsp.workspace.move(\x7b workspace = ") =
      some (.between, ts ++ [word "hl", .mark .dot, word "dsp", .mark .dot, word "workspace",
        .mark .dot, word "move", .mark .openCall, .mark .openTable, word "workspace",
        .mark .equals]) :=
  Lua.lexBytes_between (by decide) ts

theorem read_rule :
    Lua.lexBytes (.between, ts) (utf8 "hl.workspace_rule(\x7b workspace = ") =
      some (.between, ts ++ [word "hl", .mark .dot, word "workspace_rule", .mark .openCall,
        .mark .openTable, word "workspace", .mark .equals]) :=
  Lua.lexBytes_between (by decide) ts

theorem read_workspace :
    Lua.lexBytes (.between, ts) (utf8 ", workspace = ") =
      some (.between, ts ++ [.mark .comma, word "workspace", .mark .equals]) :=
  Lua.lexBytes_between (by decide) ts

theorem read_monitor :
    Lua.lexBytes (.between, ts) (utf8 ", monitor = ") =
      some (.between, ts ++ [.mark .comma, word "monitor", .mark .equals]) :=
  Lua.lexBytes_between (by decide) ts

theorem read_follow :
    Lua.lexBytes (.between, ts) (utf8 ", follow = false \x7d)") =
      some (.between, ts ++ [.mark .comma, word "follow", .mark .equals, word "false",
        .mark .closeTable, .mark .closeCall]) :=
  Lua.lexBytes_between (by decide) ts

theorem read_persistent :
    Lua.lexBytes (.between, ts) (utf8 ", persistent = true, default = ") =
      some (.between, ts ++ [.mark .comma, word "persistent", .mark .equals, word "true",
        .mark .comma, word "default", .mark .equals]) :=
  Lua.lexBytes_between (by decide) ts

theorem read_bool (b : Bool) :
    Lua.lexBytes (.between, ts) (utf8 (Request.boolText b)) =
      some (.name (utf8 (Request.boolText b)), ts) := by
  have hread : Lua.lexBytes (.between, []) (utf8 (Request.boolText b)) =
      some (.name (utf8 (Request.boolText b)), []) := by
    cases b <;> decide
  rw [Lua.lexBytes_tokens, hread]
  simp

theorem read_end :
    Lua.lexBytes (.between, ts) (utf8 " \x7d)") =
      some (.between, ts ++ [.mark .closeTable, .mark .closeCall]) :=
  Lua.lexBytes_between (by decide) ts

theorem read_end_name (text : List UInt8) :
    Lua.lexBytes (.name text, ts) (utf8 " \x7d)") =
      some (.between, ts ++ [.name text, .mark .closeTable, .mark .closeCall]) := by
  have hbytes : utf8 " \x7d)" = [32, 125, 41] := by decide
  rw [hbytes]
  simp [Lua.lexBytes, Lua.lexByte, Lua.lexStart, Lua.isLetter, Lua.isDigit, Lua.isBlank, Lua.markOf]

end Templates

/-- The text of a request has the tokens of its call. -/
theorem lua_tokens (r : Request) :
    Lua.lexBytes (.between, []) (utf8 r.lua) = some (.between, r.call.tokens) := by
  unfold Request.lua Request.windowText Request.workspaceText
  cases r with
  | focusWorkspace id =>
    simp only [utf8_append, Lua.lexBytes_append]
    rw [read_focus_workspace, Option.bind_some, luaString_read, Option.bind_some, read_end]
    rfl
  | moveWindowSilent address id =>
    simp only [utf8_append, Lua.lexBytes_append]
    rw [read_move_window, Option.bind_some, luaString_read, Option.bind_some, read_workspace,
      Option.bind_some, luaString_read, Option.bind_some, read_follow]
    rfl
  | moveWindow address id =>
    simp only [utf8_append, Lua.lexBytes_append]
    rw [read_move_window, Option.bind_some, luaString_read, Option.bind_some, read_workspace,
      Option.bind_some, luaString_read, Option.bind_some, read_end]
    rfl
  | moveActiveWindow id =>
    simp only [utf8_append, Lua.lexBytes_append]
    rw [read_move_active, Option.bind_some, luaString_read, Option.bind_some, read_end]
    rfl
  | moveWorkspaceToMonitor id monitor =>
    simp only [utf8_append, Lua.lexBytes_append]
    rw [read_move_workspace, Option.bind_some, luaString_read, Option.bind_some, read_monitor,
      Option.bind_some, luaString_read, Option.bind_some, read_end]
    rfl
  | focusWindow address =>
    simp only [utf8_append, Lua.lexBytes_append]
    rw [read_focus_window, Option.bind_some, luaString_read, Option.bind_some, read_end]
    rfl
  | workspaceRule id monitor default_ =>
    simp only [utf8_append, Lua.lexBytes_append]
    rw [read_rule, Option.bind_some, luaString_read, Option.bind_some, read_monitor,
      Option.bind_some, luaString_read, Option.bind_some, read_persistent, Option.bind_some,
      read_bool, Option.bind_some, read_end_name]
    cases default_ <;> rfl

/-- Every request is read as one call of the function of its variant, the fields of which hold
the texts given byte for byte. A literal is read up to its last quote, as the bytes of its
string. -/
theorem request_read (r : Request) (value : String) (ts : List Lua.Token) :
    Lua.readCall (utf8 r.lua) = some r.call ∧
    Lua.lexBytes (.between, ts) (utf8 (luaString value)) =
      some (.between, ts ++ [.string (utf8 value)]) := by
  refine ⟨Lua.readCall_of_tokens ?_ (lua_tokens r), luaString_read value ts⟩
  cases r <;> exact nofun

end Foundrix.HyprWorkspaced
