import Mathlib.Algebra.Ring.Int.Defs
import Mathlib.Algebra.Ring.Nat
import Mathlib.Data.List.DropRight

/-!
# String functions

The functions of Rust's `str` and `char` that the programs use, on Lean strings, and two of
JavaScript. A Rust `&str` is a sequence of Unicode scalar values, which is what a Lean
`String` is, so each function is defined on the list of characters.

* `trim`, `lines`, `splitOnce`: with the white space and control characters of Unicode.
* `linesFrom_block`: a complete line in front of a text.
* `trim_of_ends`, `splitOnce_of_notMem`: where these leave a text as it is.
* `Spaced`, `unlines`: a row of columns and a text of rows, as a program prints them.
-/

namespace Foundrix.Text

/-- `char::is_whitespace`: the code points of Unicode's `White_Space`. -/
def isWhitespace (c : Char) : Bool :=
  let n := c.toNat
  (9 ≤ n && n ≤ 13) || n == 0x20 || n == 0x85 || n == 0xA0 || n == 0x1680 ||
    (0x2000 ≤ n && n ≤ 0x200A) || n == 0x2028 || n == 0x2029 || n == 0x202F || n == 0x205F ||
    n == 0x3000

/-- `char::is_control`: the general category `Cc`. -/
def isControl (c : Char) : Bool := c.toNat ≤ 0x1F || (0x7F ≤ c.toNat && c.toNat ≤ 0x9F)

def isAsciiDigit (c : Char) : Bool := '0' ≤ c && c ≤ '9'

def isAsciiAlphanumeric (c : Char) : Bool :=
  isAsciiDigit c || ('a' ≤ c && c ≤ 'z') || ('A' ≤ c && c ≤ 'Z')

def trimChars (l : List Char) : List Char := (l.dropWhile isWhitespace).rdropWhile isWhitespace

/-- `str::trim`. -/
def trim (s : String) : String := String.ofList (trimChars s.toList)

/-- The line of which `acc` holds the characters in reverse, without the carriage return
of a line end. -/
def closeLine (acc : List Char) : List Char :=
  match acc with
  | '\r' :: acc' => acc'.reverse
  | _ => acc.reverse

/-- The lines of a text of which `acc` has been read already, in reverse. A last line
without a line end keeps its carriage return. -/
def linesFrom : List Char → List Char → List (List Char)
  | [], [] => []
  | [], acc => [acc.reverse]
  | '\n' :: cs, acc => closeLine acc :: linesFrom cs []
  | c :: cs, acc => linesFrom cs (c :: acc)

/-- `str::lines`. -/
def lines (s : String) : List String := (linesFrom s.toList []).map String.ofList

/-- `str::split_once` at a character. -/
def splitOnce (s : String) (sep : Char) : Option (String × String) :=
  match s.toList.dropWhile (· != sep) with
  | [] => none
  | _ :: rest => some (String.ofList (s.toList.takeWhile (· != sep)), String.ofList rest)

/-- The parts of a text between the occurrences of `sep`, of which `acc` has been read
already, in reverse. -/
def splitFrom (sep : Char) : List Char → List Char → List (List Char)
  | [], acc => [acc.reverse]
  | c :: cs, acc =>
    if c = sep then acc.reverse :: splitFrom sep cs [] else splitFrom sep cs (c :: acc)

/-- `str::split` at a character. -/
def split (s : String) (sep : Char) : List String :=
  (splitFrom sep s.toList []).map String.ofList

/-- `<[String]>::join`. -/
def join (sep : String) : List String → String
  | [] => ""
  | [s] => s
  | s :: rest => s ++ sep ++ join sep rest

/-- `str::contains` of a text. -/
def contains (s pat : String) : Bool := s.toList.tails.any fun t => pat.toList.isPrefixOf t

/-- The text with every occurrence of `pat` replaced from left to right; `skip` characters
belong to an occurrence already replaced. -/
def replaceFrom (pat new : List Char) : Nat → List Char → List Char
  | _, [] => []
  | skip + 1, _ :: cs => replaceFrom pat new skip cs
  | 0, c :: cs =>
    if pat.isPrefixOf (c :: cs) then new ++ replaceFrom pat new (pat.length - 1) cs
    else c :: replaceFrom pat new 0 cs

/-- `str::replace` of a text that is not empty. -/
def replace (s pat new : String) : String :=
  String.ofList (replaceFrom pat.toList new.toList 0 s.toList)

/-- The number that decimal digits stand for. -/
def decimal (digits : List Char) : Option Nat :=
  digits.foldl (fun v c => do
    if isAsciiDigit c then return (← v) * 10 + (c.toNat - '0'.toNat) else none) (some 0)

/-- `str::parse` to an unsigned integer of `bits` bits. -/
def parseUnsigned (bits : Nat) (s : String) : Option Nat :=
  let digits := match s.toList with
    | '+' :: rest => rest
    | cs => cs
  if digits = [] then none
  else (decimal digits).filter (· < 2 ^ bits)

/-- `str::parse` to a signed integer of `bits` bits. -/
def parseSigned (bits : Nat) (s : String) : Option Int :=
  let number (digits : List Char) (sign : Int) : Option Int :=
    if digits = [] then none
    else ((decimal digits).map fun n : Nat => sign * (n : Int)).filter fun v =>
      -2 ^ (bits - 1) ≤ v && v < 2 ^ (bits - 1)
  match s.toList with
  | '+' :: rest => number rest 1
  | '-' :: rest => number rest (-1)
  | cs => number cs 1

/-- `str::parse` to a `u64`, with the text of its error. -/
@[irreducible]
def parseU64 (s : String) : Except String Nat :=
  match s.toList with
  | [] => .error "cannot parse integer from empty string"
  | ['+'] => .error "invalid digit found in string"
  | cs =>
    let digits := match cs with
      | '+' :: rest => rest
      | cs => cs
    digits.foldlM (fun v c =>
      if isAsciiDigit c then
        let v' := v * 10 + (c.toNat - '0'.toNat)
        if v' < 2 ^ 64 then .ok v' else .error "number too large to fit in target type"
      else .error "invalid digit found in string") 0

/-- `String.prototype.trim` of JavaScript: its white space and its line terminators. -/
def jsWhitespace (c : Char) : Bool :=
  let n := c.toNat
  (9 ≤ n && n ≤ 13) || n == 0x20 || n == 0xA0 || n == 0x1680 || (0x2000 ≤ n && n ≤ 0x200A) ||
    n == 0x2028 || n == 0x2029 || n == 0x202F || n == 0x205F || n == 0x3000 || n == 0xFEFF

def jsTrim (s : String) : String :=
  String.ofList ((s.toList.dropWhile jsWhitespace).rdropWhile jsWhitespace)

/-- The UTF-8 bytes of a text. -/
def utf8 (s : String) : List UInt8 := s.toUTF8.data.toList

theorem utf8_inj {s t : String} (h : utf8 s = utf8 t) : s = t :=
  String.toByteArray_inj.mp (ByteArray.ext (Array.toList_inj.mp h))

/-- `str::trim_start`. -/
def trimStart (s : String) : String := String.ofList (s.toList.dropWhile isWhitespace)

/-- `str::trim_end_matches` of a character. -/
def trimEndMatches (s : String) (c : Char) : String :=
  String.ofList (s.toList.rdropWhile (· == c))

/-- The words of a text: what is left between white space. -/
def wordChars (l : List Char) : List (List Char) :=
  (l.splitOnP isWhitespace).filter fun w => w != []

/-- `str::split_whitespace`. -/
def splitWhitespace (s : String) : List String := (wordChars s.toList).map String.ofList

/-- What `read_line` reads of a stream: all up to the first line end, and this itself. -/
def readLine (s : String) : String :=
  String.ofList (s.toList.takeWhile (· != '\n') ++ (s.toList.dropWhile (· != '\n')).take 1)

/-- `str::starts_with` of a text. -/
def startsWith (s pat : String) : Bool := pat.toList.isPrefixOf s.toList

/-- `str::strip_prefix` of a text. -/
def stripPrefix (s pat : String) : Option String :=
  if startsWith s pat then some (String.ofList (s.toList.drop pat.toList.length)) else none

/-- `str::strip_suffix` of a character. -/
def stripSuffix (s : String) (c : Char) : Option String :=
  if s.toList.getLast? = some c then some (String.ofList s.toList.dropLast) else none

/-- `str::rsplit_once` at a character. -/
def rsplitOnce (s : String) (sep : Char) : Option (String × String) :=
  match s.toList.rdropWhile (· != sep) with
  | [] => none
  | l => some (String.ofList l.dropLast, String.ofList (s.toList.rtakeWhile (· != sep)))

/-- `char::to_ascii_lowercase`. -/
def asciiLower (c : Char) : Char :=
  if 'A' ≤ c && c ≤ 'Z' then Char.ofNat (c.toNat + 32) else c

/-- `str::to_ascii_lowercase`. -/
def toAsciiLowercase (s : String) : String := String.ofList (s.toList.map asciiLower)

theorem asciiLower_idem (c : Char) : asciiLower (asciiLower c) = asciiLower c := by
  unfold asciiLower
  by_cases hc : ('A' ≤ c && c ≤ 'Z') = true
  · have hrange : 65 ≤ c.toNat ∧ c.toNat ≤ 90 := by
      simp only [Bool.and_eq_true, decide_eq_true_eq] at hc
      exact ⟨hc.1, hc.2⟩
    have hnot : ∀ n < 91, 65 ≤ n →
        ('A' ≤ Char.ofNat (n + 32) && Char.ofNat (n + 32) ≤ 'Z') = false := by decide
    rw [if_pos hc, hnot c.toNat (by omega) hrange.1]
    rfl
  · rw [if_neg hc, if_neg hc]

theorem toAsciiLowercase_idem (s : String) :
    toAsciiLowercase (toAsciiLowercase s) = toAsciiLowercase s := by
  unfold toAsciiLowercase
  rw [String.toList_ofList, List.map_map]
  congr 1
  exact List.map_congr_left fun c _ => asciiLower_idem c

/-- `str::eq_ignore_ascii_case`. -/
def eqIgnoreAsciiCase (s t : String) : Bool := s.toList.map asciiLower == t.toList.map asciiLower

/-! ## Trimming -/

theorem rdropWhile_of_getLast {p : Char → Bool} {l : List Char}
    (h : ∀ c, l.getLast? = some c → p c = false) : l.rdropWhile p = l := by
  rcases List.eq_nil_or_concat' l with rfl | ⟨l', c, rfl⟩
  · rfl
  · have hc : ¬ p c = true := by simp [h c (by simp)]
    rw [List.rdropWhile_concat_neg _ _ _ hc]

theorem dropWhile_of_head {p : Char → Bool} {l : List Char}
    (h : ∀ c, l.head? = some c → p c = false) : l.dropWhile p = l := by
  cases l with
  | nil => rfl
  | cons c l => simp [h c rfl]

theorem trimChars_of_ends {l : List Char}
    (hhead : ∀ c, l.head? = some c → isWhitespace c = false)
    (hlast : ∀ c, l.getLast? = some c → isWhitespace c = false) : trimChars l = l := by
  rw [trimChars, dropWhile_of_head hhead, rdropWhile_of_getLast hlast]

/-- A text whose ends are not white space is its own trimming. -/
theorem trim_of_ends {s : String}
    (hhead : ∀ c, s.toList.head? = some c → isWhitespace c = false)
    (hlast : ∀ c, s.toList.getLast? = some c → isWhitespace c = false) : trim s = s := by
  rw [trim, trimChars_of_ends hhead hlast, String.ofList_toList]

theorem trim_of_all {s : String} (h : ∀ c ∈ s.toList, isWhitespace c = false) : trim s = s :=
  trim_of_ends (fun c hc => h c (List.mem_of_mem_head? (by simp [hc])))
    (fun c hc => h c (List.mem_of_getLast? hc))

/-- A text whose ends are not white space for JavaScript is its own trimming. -/
theorem jsTrim_of_ends {s : String}
    (hhead : ∀ c, s.toList.head? = some c → jsWhitespace c = false)
    (hlast : ∀ c, s.toList.getLast? = some c → jsWhitespace c = false) : jsTrim s = s := by
  rw [jsTrim, dropWhile_of_head hhead, rdropWhile_of_getLast hlast, String.ofList_toList]

theorem rdropWhile_append_cons {p : Char → Bool} {c : Char} (hc : p c = false)
    (l v : List Char) : (l ++ c :: v).rdropWhile p = l ++ c :: v.rdropWhile p := by
  induction v using List.reverseRecOn with
  | nil => rw [List.rdropWhile_concat_neg _ _ _ (by simp [hc]), List.rdropWhile_nil]
  | append_singleton v x ih =>
    rw [← List.cons_append, ← List.append_assoc]
    by_cases hx : p x = true
    · rw [List.rdropWhile_concat_pos _ _ _ hx, List.rdropWhile_concat_pos _ _ _ hx, ih]
    · rw [List.rdropWhile_concat_neg _ _ _ hx, List.rdropWhile_concat_neg _ _ _ hx]
      simp

theorem rdropWhile_cons (p : Char → Bool) (c : Char) (l : List Char) :
    (c :: l).rdropWhile p =
      if l.rdropWhile p = [] then [c].rdropWhile p else c :: l.rdropWhile p := by
  unfold List.rdropWhile
  rw [List.reverse_cons, List.dropWhile_append]
  by_cases hnil : l.reverse.dropWhile p = []
  · simp [hnil]
  · simp [hnil, List.isEmpty_iff]

/-- White space cut off at the end makes no difference to a later trimming. -/
theorem trimChars_rdropWhile (v : List Char) :
    trimChars (v.rdropWhile isWhitespace) = trimChars v := by
  induction v using List.reverseRecOn with
  | nil => rfl
  | append_singleton v x ih =>
    by_cases hx : isWhitespace x = true
    · rw [List.rdropWhile_concat_pos _ _ _ hx, ih, trimChars, trimChars, List.dropWhile_append]
      split
      · rename_i h
        simp [List.isEmpty_iff.mp h, hx]
      · rw [List.rdropWhile_concat_pos _ _ _ hx]
    · rw [List.rdropWhile_concat_neg _ _ _ hx]

/-! ## Lines -/

theorem linesFrom_text {l : List Char} (hl : '\n' ∉ l) (rest acc : List Char) :
    linesFrom (l ++ rest) acc = linesFrom rest (l.reverse ++ acc) := by
  induction l generalizing acc with
  | nil => rfl
  | cons c l ih =>
    have hc : c ≠ '\n' := fun h => hl (h ▸ List.mem_cons_self)
    rw [List.cons_append, linesFrom]
    · rw [ih (fun h => hl (List.mem_cons_of_mem _ h))]
      simp
    · exact fun h => hc h

theorem closeLine_reverse {l : List Char} (hl : '\r' ∉ l) : closeLine l.reverse = l := by
  unfold closeLine
  split
  · rename_i acc' hacc
    have : '\r' ∈ l := by
      rw [← List.mem_reverse, hacc]
      exact List.mem_cons_self
    exact absurd this hl
  · simp

/-- A complete line in front of a text is its first line. -/
theorem linesFrom_block {l : List Char} (hn : '\n' ∉ l) (hr : '\r' ∉ l) (rest : List Char) :
    linesFrom (l ++ '\n' :: rest) [] = l :: linesFrom rest [] := by
  rw [linesFrom_text hn, linesFrom, List.append_nil, closeLine_reverse hr]

/-- A last line without a line end is a line unless it is empty. -/
theorem linesFrom_rest {l : List Char} (hn : '\n' ∉ l) :
    linesFrom l [] = if l = [] then [] else [l] := by
  have h := linesFrom_text hn [] []
  rw [List.append_nil] at h
  rw [h, List.append_nil]
  split
  · subst l
    rfl
  · rename_i hne
    cases hr : l.reverse with
    | nil => exact absurd (List.reverse_eq_nil_iff.mp hr) hne
    | cons c acc =>
      rw [linesFrom, ← hr, List.reverse_reverse]
      simp

/-! ## Splitting -/

theorem takeWhile_of_notMem {sep : Char} {l : List Char} (h : sep ∉ l) (rest : List Char) :
    (l ++ sep :: rest).takeWhile (· != sep) = l := by
  rw [List.takeWhile_append_of_pos]
  · simp
  · intro c hc
    simpa using fun he : c = sep => h (he ▸ hc)

theorem dropWhile_of_notMem {sep : Char} {l : List Char} (h : sep ∉ l) (rest : List Char) :
    (l ++ sep :: rest).dropWhile (· != sep) = sep :: rest := by
  rw [List.dropWhile_append_of_pos]
  · simp
  · intro c hc
    simpa using fun he : c = sep => h (he ▸ hc)

/-- The split is at the first separator. -/
theorem splitOnce_of_notMem {sep : Char} {k : String} (h : sep ∉ k.toList) {s v : String}
    (hs : s.toList = k.toList ++ sep :: v.toList) : splitOnce s sep = some (k, v) := by
  rw [splitOnce, hs, dropWhile_of_notMem h, takeWhile_of_notMem h]
  simp

theorem splitOnce_some {sep : Char} {s k v : String} (h : splitOnce s sep = some (k, v)) :
    s.toList = k.toList ++ sep :: v.toList := by
  have happ := List.takeWhile_append_dropWhile (p := (· != sep)) (l := s.toList)
  unfold splitOnce at h
  cases hd : s.toList.dropWhile (· != sep) with
  | nil => rw [hd] at h; cases h
  | cons c rest =>
    rw [hd] at h happ
    have hc : c = sep := by
      have := List.head?_dropWhile_not (· != sep) s.toList
      rw [hd] at this
      simpa using this
    subst hc
    cases h
    rw [String.toList_ofList, String.toList_ofList]
    exact happ.symm

theorem splitOnce_fst {sep : Char} {s k v : String} (h : splitOnce s sep = some (k, v)) :
    sep ∉ k.toList := by
  unfold splitOnce at h
  cases hd : s.toList.dropWhile (· != sep) with
  | nil =>
    rw [hd] at h
    cases h
  | cons c rest =>
    rw [hd] at h
    cases h
    intro hin
    have hne := List.mem_takeWhile_imp (String.toList_ofList ▸ hin)
    simp at hne

theorem splitOnce_none {sep : Char} {s : String} (h : sep ∉ s.toList) :
    splitOnce s sep = none := by
  have hd : s.toList.dropWhile (· != sep) = [] := by
    rw [List.dropWhile_eq_nil_iff]
    intro c hc
    simpa using fun he : c = sep => h (he ▸ hc)
  rw [splitOnce, hd]

theorem splitFrom_of_notMem {sep : Char} {l : List Char} (h : sep ∉ l) (acc : List Char) :
    splitFrom sep l acc = [acc.reverse ++ l] := by
  induction l generalizing acc with
  | nil => simp [splitFrom]
  | cons c l ih =>
    have hc : c ≠ sep := fun he => h (he ▸ List.mem_cons_self)
    rw [splitFrom, if_neg hc, ih fun hmem => h (List.mem_cons_of_mem _ hmem)]
    simp

/-- The part in front of a separator. -/
theorem splitFrom_block {sep : Char} {l : List Char} (h : sep ∉ l) (rest acc : List Char) :
    splitFrom sep (l ++ sep :: rest) acc = (acc.reverse ++ l) :: splitFrom sep rest [] := by
  induction l generalizing acc with
  | nil => simp [splitFrom]
  | cons c l ih =>
    have hc : c ≠ sep := fun he => h (he ▸ List.mem_cons_self)
    rw [List.cons_append, splitFrom, if_neg hc, ih fun hmem => h (List.mem_cons_of_mem _ hmem)]
    simp

/-- A text without the separator lengthens the last part. -/
theorem splitFrom_append {sep : Char} {t : List Char} (ht : sep ∉ t) (l acc : List Char) :
    ∃ front last, splitFrom sep l acc = front ++ [last] ∧
      splitFrom sep (l ++ t) acc = front ++ [last ++ t] := by
  induction l generalizing acc with
  | nil => exact ⟨[], acc.reverse, rfl, splitFrom_of_notMem ht acc⟩
  | cons c l ih =>
    by_cases hc : c = sep
    · obtain ⟨front, last, hl, hlt⟩ := ih []
      refine ⟨acc.reverse :: front, last, ?_, ?_⟩
      · rw [splitFrom, if_pos hc, hl, List.cons_append]
      · rw [List.cons_append, splitFrom, if_pos hc, hlt, List.cons_append]
    · obtain ⟨front, last, hl, hlt⟩ := ih (c :: acc)
      refine ⟨front, last, ?_, ?_⟩
      · rw [splitFrom, if_neg hc, hl]
      · rw [List.cons_append, splitFrom, if_neg hc, hlt]

/-! ## Prefixes -/

theorem stripPrefix_append (pat text : String) : stripPrefix (pat ++ text) pat = some text := by
  have hstarts : startsWith (pat ++ text) pat = true := by
    simp [startsWith, List.isPrefixOf_iff_prefix]
  rw [stripPrefix, if_pos hstarts]
  simp

/-! ## Words -/

/-- A text with characters, none of which is white space. -/
def IsWord (w : String) : Prop := w ≠ "" ∧ ∀ c ∈ w.toList, isWhitespace c = false

theorem isWord_of_all {w : String} (hne : w ≠ "")
    (h : (w.toList.all fun c => !isWhitespace c) = true) : IsWord w := by
  refine ⟨hne, fun c hc => ?_⟩
  simpa using List.all_eq_true.mp h c hc

theorem wordChars_append {c : Char} (hc : isWhitespace c = true) (l l' : List Char) :
    wordChars (l ++ c :: l') = wordChars l ++ wordChars l' := by
  unfold wordChars
  rw [List.splitOnP_append_cons _ _ hc, List.filter_append]

@[simp] theorem wordChars_nil : wordChars [] = [] := rfl

theorem wordChars_word {w : List Char} (hw : w ≠ []) (h : ∀ c ∈ w, isWhitespace c = false) :
    wordChars w = [w] := by
  unfold wordChars
  rw [List.splitOnP_eq_singleton h]
  simp [hw]

theorem wordChars_dropWhile (l : List Char) :
    wordChars (l.dropWhile isWhitespace) = wordChars l := by
  induction l with
  | nil => rfl
  | cons c l ih =>
    by_cases hc : isWhitespace c = true
    · rw [List.dropWhile_cons_of_pos hc, ih]
      exact (wordChars_append hc [] l).symm
    · rw [List.dropWhile_cons_of_neg hc]

theorem wordChars_rdropWhile (l : List Char) :
    wordChars (l.rdropWhile isWhitespace) = wordChars l := by
  induction l using List.reverseRecOn with
  | nil => rfl
  | append_singleton l c ih =>
    by_cases hc : isWhitespace c = true
    · rw [List.rdropWhile_concat_pos _ _ _ hc, ih, wordChars_append hc l []]
      simp
    · rw [List.rdropWhile_concat_neg _ _ _ hc]

/-- Trimming leaves the words as they are. -/
theorem splitWhitespace_trim (s : String) : splitWhitespace (trim s) = splitWhitespace s := by
  unfold splitWhitespace trim trimChars
  rw [String.toList_ofList, wordChars_rdropWhile, wordChars_dropWhile]

theorem splitOnP_mem {p : Char → Bool} {l w : List Char} (h : w ∈ l.splitOnP p) {c : Char}
    (hc : c ∈ w) : p c = false := by
  induction l generalizing w with
  | nil =>
    obtain rfl : w = [] := by simpa using h
    cases hc
  | cons x l ih =>
    rw [List.splitOnP_cons_eq_if_modifyHead] at h
    by_cases hx : p x = true
    · rw [if_pos hx] at h
      rcases List.mem_cons.mp h with rfl | h
      · cases hc
      · exact ih h hc
    · rw [if_neg hx] at h
      cases hl : l.splitOnP p with
      | nil => exact (List.splitOnP_ne_nil p l hl).elim
      | cons v vs =>
        rw [hl, List.modifyHead_cons] at h
        rcases List.mem_cons.mp h with rfl | h
        · rcases List.mem_cons.mp hc with rfl | hc
          · simpa using hx
          · exact ih (by rw [hl]; exact List.mem_cons_self) hc
        · exact ih (by rw [hl]; exact List.mem_cons_of_mem _ h) hc

theorem isWord_of_mem {s w : String} (h : w ∈ splitWhitespace s) : IsWord w := by
  obtain ⟨l, hl, rfl⟩ := List.mem_map.mp h
  obtain ⟨hmem, hne⟩ := List.mem_filter.mp hl
  refine ⟨fun he => ?_, fun c hc => ?_⟩
  · have hnil : l = [] := by
      have := congrArg String.toList he
      simpa using this
    simp [hnil] at hne
  · rw [String.toList_ofList] at hc
    exact splitOnP_mem hmem hc

theorem wordChars_isWord {w : String} (h : IsWord w) : wordChars w.toList = [w.toList] := by
  refine wordChars_word (fun hnil => h.1 ?_) h.2
  rw [← String.ofList_toList (s := w), hnil]

/-- A word, a blank and a text. -/
theorem splitWhitespace_cons {w : String} (hw : IsWord w) (s : String) :
    splitWhitespace (w ++ " " ++ s) = w :: splitWhitespace s := by
  have hlist : (w ++ " " ++ s).toList = w.toList ++ ' ' :: s.toList := by simp
  unfold splitWhitespace
  rw [hlist, wordChars_append rfl, wordChars_isWord hw]
  simp

/-- Words that are joined by single blanks are the words of the text. -/
theorem splitWhitespace_join {ws : List String} (h : ∀ w ∈ ws, IsWord w) :
    splitWhitespace (join " " ws) = ws := by
  induction ws with
  | nil => rfl
  | cons w ws ih =>
    have hw := h w List.mem_cons_self
    have hrest := ih fun v hv => h v (List.mem_cons_of_mem _ hv)
    cases ws with
    | nil =>
      show splitWhitespace w = [w]
      simp [splitWhitespace, wordChars_isWord hw]
    | cons v vs => rw [join, splitWhitespace_cons hw, hrest]; simp

/-! ## Rows -/

/-- A text in which these words stand with blanks between them, and any blanks around. -/
inductive Spaced : List String → List Char → Prop
  | nil : Spaced [] []
  | blank {ws : List String} {l : List Char} (h : Spaced ws l) : Spaced ws (' ' :: l)
  | last {w : String} (hw : IsWord w) : Spaced [w] w.toList
  | word {w : String} {ws : List String} {l : List Char} (hw : IsWord w) (h : Spaced ws l) :
      Spaced (w :: ws) (w.toList ++ ' ' :: l)

theorem Spaced.wordChars_eq {ws : List String} {l : List Char} (h : Spaced ws l) :
    wordChars l = ws.map String.toList := by
  induction h with
  | nil => rfl
  | @blank ws l _ ih => exact (wordChars_append (c := ' ') rfl [] l).trans (by simpa using ih)
  | last hw => exact wordChars_isWord hw
  | word hw _ ih => rw [wordChars_append rfl, wordChars_isWord hw, ih]; rfl

/-- The columns of a row are its words. -/
theorem Spaced.splitWhitespace_eq {ws : List String} {row : String} (h : Spaced ws row.toList) :
    splitWhitespace row = ws := by
  rw [splitWhitespace, h.wordChars_eq, List.map_map]
  simp

/-- Words that are joined by single blanks are a row. -/
theorem spaced_join {ws : List String} (h : ∀ w ∈ ws, IsWord w) :
    Spaced ws (join " " ws).toList := by
  induction ws with
  | nil => exact .nil
  | cons w ws ih =>
    have hw := h w List.mem_cons_self
    have hrest := ih fun v hv => h v (List.mem_cons_of_mem _ hv)
    cases ws with
    | nil => exact .last hw
    | cons v vs =>
      have hlist : (join " " (w :: v :: vs)).toList =
          w.toList ++ ' ' :: (join " " (v :: vs)).toList := by simp [join]
      rw [hlist]
      exact .word hw hrest

theorem Spaced.of_mem {ws : List String} {l : List Char} (h : Spaced ws l) {c : Char}
    (hc : c ∈ l) : c = ' ' ∨ isWhitespace c = false := by
  induction h with
  | nil => cases hc
  | blank _ ih =>
    rcases List.mem_cons.mp hc with rfl | hc
    · exact Or.inl rfl
    · exact ih hc
  | last hw => exact Or.inr (hw.2 c hc)
  | word hw _ ih =>
    rcases List.mem_append.mp hc with hc | hc
    · exact Or.inr (hw.2 c hc)
    rcases List.mem_cons.mp hc with rfl | hc
    · exact Or.inl rfl
    · exact ih hc

/-- A row has no line end in it. -/
theorem Spaced.one_line {ws : List String} {l : List Char} (h : Spaced ws l) :
    '\n' ∉ l ∧ '\r' ∉ l := by
  constructor
  · intro hc
    rcases h.of_mem hc with he | he <;> exact absurd he (by decide)
  · intro hc
    rcases h.of_mem hc with he | he <;> exact absurd he (by decide)

theorem IsWord.one_line {w : String} (h : IsWord w) : '\n' ∉ w.toList ∧ '\r' ∉ w.toList :=
  (Spaced.last h).one_line

/-- A text of complete lines. -/
def unlines : List String → String
  | [] => ""
  | row :: rows => row ++ "\n" ++ unlines rows

/-- The lines of a text that was printed line by line. -/
theorem lines_unlines {rows : List String}
    (h : ∀ row ∈ rows, '\n' ∉ row.toList ∧ '\r' ∉ row.toList) : lines (unlines rows) = rows := by
  induction rows with
  | nil => rfl
  | cons row rows ih =>
    have hrow := h row List.mem_cons_self
    have hrest := ih fun r hr => h r (List.mem_cons_of_mem _ hr)
    have hlist : (unlines (row :: rows)).toList = row.toList ++ '\n' :: (unlines rows).toList := by
      simp [unlines]
    unfold lines at hrest ⊢
    rw [hlist, linesFrom_block hrow.1 hrow.2, List.map_cons, hrest, String.ofList_toList]

/-! ## Numbers -/

theorem decimal_digits {l : List Char} (h : ∀ c ∈ l, isAsciiDigit c = true) :
    decimal l = some (Nat.ofDigitChars 10 l 0) := by
  have hfold : ∀ v : Nat, l.foldl (fun v c => do
      if isAsciiDigit c then return (← v) * 10 + (c.toNat - '0'.toNat) else none) (some v) =
      some (Nat.ofDigitChars 10 l v) := by
    induction l with
    | nil => intro v; rfl
    | cons c l ih =>
      intro v
      have hc := h c List.mem_cons_self
      have hvalue : v * 10 + (c.toNat - '0'.toNat) = 10 * v + (c.toNat - '0'.toNat) := by omega
      rw [List.foldl_cons, Nat.ofDigitChars_cons, ← ih fun x hx => h x (List.mem_cons_of_mem _ hx)]
      simp only [hc, if_true]
      show l.foldl _ (some (v * 10 + (c.toNat - '0'.toNat))) = _
      rw [hvalue]
  exact hfold 0

theorem isAsciiDigit_toDigits {n : Nat} {c : Char} (h : c ∈ Nat.toDigits 10 n) :
    isAsciiDigit c = true := by
  have hc := Nat.isDigit_of_mem_toDigits (by decide) (by decide) h
  rw [Char.isDigit, Bool.and_eq_true, decide_eq_true_eq, decide_eq_true_eq] at hc
  rw [isAsciiDigit, Bool.and_eq_true, decide_eq_true_eq, decide_eq_true_eq]
  exact hc

theorem decimal_toDigits (n : Nat) : decimal (Nat.toDigits 10 n) = some n := by
  rw [decimal_digits fun c => isAsciiDigit_toDigits, Nat.ofDigitChars_ten_toDigits]

theorem isWhitespace_of_digit {c : Char} (h : isAsciiDigit c = true) :
    isWhitespace c = false := by
  rw [isAsciiDigit, Bool.and_eq_true, decide_eq_true_eq, decide_eq_true_eq] at h
  have hrange : 48 ≤ c.toNat ∧ c.toNat ≤ 57 := ⟨h.1, h.2⟩
  have hnot : ∀ n < 58, 48 ≤ n → ((9 ≤ n && n ≤ 13) || n == 0x20 || n == 0x85 || n == 0xA0 ||
      n == 0x1680 || (0x2000 ≤ n && n ≤ 0x200A) || n == 0x2028 || n == 0x2029 || n == 0x202F ||
      n == 0x205F || n == 0x3000) = false := by decide
  exact hnot c.toNat (by omega) hrange.1

/-- The decimal text of a number is a word. -/
theorem isWord_repr (n : Nat) : IsWord n.repr := by
  refine ⟨fun he => ?_, fun c hc => ?_⟩
  · have hnil : Nat.toDigits 10 n = [] := by rw [← Nat.toList_repr, he]; rfl
    exact Nat.toDigits_ne_nil hnil
  · rw [Nat.toList_repr] at hc
    exact isWhitespace_of_digit (isAsciiDigit_toDigits hc)

/-- A number is read as it is written where it fits. -/
theorem parseUnsigned_repr (bits n : Nat) :
    parseUnsigned bits n.repr = if n < 2 ^ bits then some n else none := by
  have hdigit : ∀ c ∈ Nat.toDigits 10 n, isAsciiDigit c = true := fun c => isAsciiDigit_toDigits
  have hdigits : (match Nat.toDigits 10 n with
      | '+' :: rest => rest
      | cs => cs) = Nat.toDigits 10 n := by
    split
    · rename_i rest heq
      exact absurd (hdigit '+' (heq ▸ List.mem_cons_self)) (by decide)
    · rfl
  simp only [parseUnsigned, Nat.toList_repr, hdigits, Nat.toDigits_ne_nil, if_false,
    decimal_toDigits, Option.filter_some]
  simp

/-- A number is read as it is written. -/
theorem parseSigned_repr {bits : Nat} {v : Int} (h : -2 ^ (bits - 1) ≤ v ∧ v < 2 ^ (bits - 1)) :
    parseSigned bits v.repr = some v := by
  have hrange : (decide (-2 ^ (bits - 1) ≤ v) && decide (v < 2 ^ (bits - 1))) = true := by
    simpa using h
  cases v with
  | ofNat n =>
    have hlist : (Int.ofNat n).repr.toList = Nat.toDigits 10 n := Nat.toList_repr
    have hdigit : ∀ c ∈ Nat.toDigits 10 n, isAsciiDigit c = true := fun c => isAsciiDigit_toDigits
    unfold parseSigned
    simp only [hlist]
    split
    · rename_i rest heq
      exact absurd (hdigit '+' (heq ▸ List.mem_cons_self)) (by decide)
    · rename_i rest heq
      exact absurd (hdigit '-' (heq ▸ List.mem_cons_self)) (by decide)
    · rw [if_neg Nat.toDigits_ne_nil, decimal_toDigits]
      simpa using h
  | negSucc n =>
    have hlist : (Int.negSucc n).repr.toList = '-' :: Nat.toDigits 10 (n + 1) := by
      show ("-" ++ (n + 1).repr).toList = _
      rw [String.toList_append, Nat.toList_repr]
      rfl
    unfold parseSigned
    simp only [hlist, Nat.toDigits_ne_nil, if_false, decimal_toDigits]
    have hvalue : -1 * ((n + 1 : Nat) : Int) = Int.negSucc n := by omega
    rw [Option.map_some, hvalue, Option.filter_some, if_pos hrange]

end Foundrix.Text
