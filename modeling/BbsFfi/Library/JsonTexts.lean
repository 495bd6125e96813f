import Mathlib.Data.List.Basic

/-!
# Reading JSON

A reader for JSON texts of objects, arrays, natural numbers and strings without
escapes.  It cuts the text into tokens (`scan`) and puts these together with a
stack of the values that are still open (`State.step`).  Scanning goes on where it
stopped (`scan_append`), so a text made of pieces is scanned piece by piece; a
piece that is put between quotes is one token (`scan_quoted`).
-/

namespace JsonTexts

/-! ## Tokens -/

inductive Token where
  | lbrace
  | rbrace
  | lbrack
  | rbrack
  | colon
  | comma
  | num (n : Nat)
  | str (s : String)
  deriving DecidableEq, Repr

/-- Between tokens, within a number, or within a string. -/
inductive Scan where
  | idle
  | number (n : Nat)
  | string (chars : List Char)
  deriving DecidableEq, Repr

def digitOf (c : Char) : Nat := c.toNat - '0'.toNat

/-- A character that begins a token, or a blank. -/
def start : Char → Option (List Token × Scan)
  | '\x7b' => some ([.lbrace], .idle)
  | '\x7d' => some ([.rbrace], .idle)
  | '[' => some ([.lbrack], .idle)
  | ']' => some ([.rbrack], .idle)
  | ':' => some ([.colon], .idle)
  | ',' => some ([.comma], .idle)
  | '\x22' => some ([], .string [])
  | c =>
    if c.isWhitespace then some ([], .idle)
    else if c.isDigit then some ([], .number (digitOf c))
    else none

/-- A character that stands for itself in a string. -/
def Plain (c : Char) : Prop := c ≠ '\x22' ∧ c ≠ '\x5c' ∧ ' ' ≤ c

instance (c : Char) : Decidable (Plain c) := inferInstanceAs (Decidable (_ ∧ _ ∧ _))

def Scan.step : Scan → Char → Option (List Token × Scan)
  | .idle, c => start c
  | .number n, c =>
    if c.isDigit then
      -- no digit follows a leading zero
      if n = 0 then none else some ([], .number (10 * n + digitOf c))
    else (start c).map fun p => (.num n :: p.1, p.2)
  | .string chars, c =>
    if c = '\x22' then some ([.str (String.ofList chars)], .idle)
    else if Plain c then some ([], .string (chars ++ [c]))
    else none

/-- The tokens that are complete, and where the scan has got to. -/
def scan : Scan → List Char → Option (List Token × Scan)
  | st, [] => some ([], st)
  | st, c :: cs => do
    let (toks, st₁) ← st.step c
    let (rest, st₂) ← scan st₁ cs
    return (toks ++ rest, st₂)

def tokens (text : String) : Option (List Token) := do
  match ← scan .idle text.toList with
  | (toks, .idle) => some toks
  | (toks, .number n) => some (toks ++ [.num n])
  | (_, .string _) => none

theorem scan_cons {st st₁ st₂ : Scan} {c : Char} {cs : List Char} {toks rest : List Token}
    (h : st.step c = some (toks, st₁)) (hrest : scan st₁ cs = some (rest, st₂)) :
    scan st (c :: cs) = some (toks ++ rest, st₂) := by
  rw [scan, h]
  show (scan st₁ cs).bind _ = _
  rw [hrest]
  rfl

/-- **Scanning goes on where it stopped.** -/
theorem scan_append {st st₁ st₂ : Scan} {xs ys : List Char} {toks rest : List Token}
    (h : scan st xs = some (toks, st₁)) (hrest : scan st₁ ys = some (rest, st₂)) :
    scan st (xs ++ ys) = some (toks ++ rest, st₂) := by
  induction xs generalizing st toks with
  | nil =>
    cases h
    exact hrest
  | cons c cs ih =>
    obtain ⟨⟨first, st'⟩, hstep, h⟩ := Option.bind_eq_some_iff.mp h
    obtain ⟨⟨more, st''⟩, hscan, h⟩ := Option.bind_eq_some_iff.mp h
    cases h
    rw [List.cons_append, List.append_assoc]
    exact scan_cons hstep (ih hscan)

/-- A string goes on over plain characters. -/
theorem scan_plain {chars cs : List Char} (h : ∀ c ∈ cs, Plain c) :
    scan (.string chars) cs = some ([], .string (chars ++ cs)) := by
  induction cs generalizing chars with
  | nil => rw [List.append_nil]; rfl
  | cons c cs ih =>
    obtain ⟨hc, hcs⟩ := List.forall_mem_cons.mp h
    have hstep : (Scan.string chars).step c = some ([], .string (chars ++ [c])) := by
      rw [Scan.step, if_neg hc.1, if_pos hc]
    rw [scan_cons hstep (ih hcs), List.append_assoc]
    rfl

/-- Within quotes a text is one token. -/
theorem scan_quoted {s : String} {cs : List Char} {rest : List Token} {st : Scan}
    (h : ∀ c ∈ s.toList, Plain c) (hrest : scan .idle cs = some (rest, st)) :
    scan (.string []) (s.toList ++ '\x22' :: cs) = some (.str s :: rest, st) := by
  have hclose : (Scan.string s.toList).step '\x22' = some ([.str s], .idle) := by
    rw [Scan.step, if_pos rfl, String.ofList_toList]
  exact scan_append (scan_plain h) (scan_cons hclose hrest)

/-! ## Values -/

inductive Json where
  | num (n : Nat)
  | str (s : String)
  | arr (items : List Json)
  | obj (members : List (String × Json))

inductive Frame where
  | arr (items : List Json)
  | obj (members : List (String × Json)) (name : String)

/-- What may come next, within the open frames. -/
inductive State where
  | value (frames : List Frame)
  | firstItem (frames : List Frame)
  | firstName (frames : List Frame)
  | nextName (frames : List Frame) (members : List (String × Json))
  | colon (frames : List Frame) (members : List (String × Json)) (name : String)
  | after (frames : List Frame) (v : Json)

/-- The first token of a value. -/
def begin (fs : List Frame) : Token → Option State
  | .num n => some (.after fs (.num n))
  | .str s => some (.after fs (.str s))
  | .lbrack => some (.firstItem fs)
  | .lbrace => some (.firstName fs)
  | _ => none

def State.step : State → Token → Option State
  | .value fs, tok => begin fs tok
  | .firstItem fs, .rbrack => some (.after fs (.arr []))
  | .firstItem fs, tok => begin (.arr [] :: fs) tok
  | .firstName fs, .rbrace => some (.after fs (.obj []))
  | .firstName fs, .str name => some (.colon fs [] name)
  | .nextName fs ms, .str name => some (.colon fs ms name)
  | .colon fs ms name, .colon => some (.value (.obj ms name :: fs))
  | .after (.arr vs :: fs) v, .comma => some (.value (.arr (vs ++ [v]) :: fs))
  | .after (.arr vs :: fs) v, .rbrack => some (.after fs (.arr (vs ++ [v])))
  | .after (.obj ms name :: fs) v, .comma => some (.nextName fs (ms ++ [(name, v)]))
  | .after (.obj ms name :: fs) v, .rbrace => some (.after fs (.obj (ms ++ [(name, v)])))
  | _, _ => none

def valueOf (toks : List Token) : Option Json := do
  match ← toks.foldlM State.step (.value []) with
  | .after [] v => some v
  | _ => none

/-- The value that the text is. -/
def parse (text : String) : Option Json := (tokens text).bind valueOf

def Json.get (name : String) : Json → Option Json
  | .obj members => members.lookup name
  | _ => none

theorem Json.get_obj (name name' : String) (v : Json) (members : List (String × Json)) :
    (Json.obj ((name', v) :: members)).get name
      = if name = name' then some v else (Json.obj members).get name := by
  show ((name', v) :: members).lookup name = _
  by_cases h : name = name'
  · rw [List.lookup_cons, beq_iff_eq.mpr h, if_pos h]
  · rw [List.lookup_cons, beq_eq_false_iff_ne.mpr h, if_neg h]
    rfl

example : (parse "\x7b\"a\": [1, \x7b\x7d, 23], \"b\": \"c\"\x7d").isSome := by decide +kernel

end JsonTexts
