/-!
# Readers

A `Reader` takes a value off the front of a text, or fails and takes nothing. It is a state
transformer over the characters still to be read, so readers are put together with `do` and with
`<|>`, which tries its second reader on the same text when the first one fails. Repetition
(`many`) is bounded by the length of the text: a reader that takes at least one character each
time cannot succeed more often than that.
-/

namespace MappedNetlist

/-- Takes a value off the front of a text, or fails. -/
abbrev Reader (α : Type) := StateT (List Char) Option α

namespace Reader

variable {α β : Type}

/-- One character that satisfies `p`. -/
def satisfy (p : Char → Bool) : Reader Char
  | [] => none
  | c :: cs => if p c then some (c, cs) else none

/-- The character `c`. -/
def char (c : Char) : Reader Unit
  | [] => none
  | d :: cs => if d = c then some ((), cs) else none

/-- The characters of `w`, in order. -/
def word : List Char → Reader Unit
  | [] => pure ()
  | c :: w => do char c; word w

/-- The longest run of characters that satisfy `p`, which may be empty. -/
def run (p : Char → Bool) : Reader (List Char)
  | cs => some (cs.takeWhile p, cs.dropWhile p)

/-- A run of at least one character. -/
def run1 (p : Char → Bool) : Reader (List Char) := do
  let c ← satisfy p
  let cs ← run p
  return c :: cs

/-- Succeeds at the end of the text only. -/
def done : Reader Unit
  | [] => some ((), [])
  | _ :: _ => none

/-- Values for as long as there are any, but at most `n`. -/
def upTo (p : Reader α) : Nat → Reader (List α)
  | 0 => pure []
  | n + 1 => (do
      let a ← p
      let as ← upTo p n
      return a :: as) <|> pure []

/-- Values for as long as there are any. -/
def many (p : Reader α) : Reader (List α)
  | cs => upTo p cs.length cs

/-- Characters that satisfy `p`, exactly `n` of them. -/
def exactly (p : Char → Bool) : Nat → Reader (List Char)
  | 0 => pure []
  | n + 1 => do
    let c ← satisfy p
    let cs ← exactly p n
    return c :: cs

/-- Reads the whole of a text. -/
def readAll? (p : Reader α) (text : String) : Option α :=
  ((do let a ← p; done; return a : Reader α) text.toList).map Prod.fst

theorem pure_apply (a : α) (cs : List Char) : (pure a : Reader α) cs = some (a, cs) := rfl

theorem bind_apply (p : Reader α) (f : α → Reader β) (cs : List Char) :
    (p >>= f) cs = (p cs).bind fun r => f r.1 r.2 := rfl

theorem orElse_apply (p q : Reader α) (cs : List Char) : (p <|> q) cs = (p cs <|> q cs) := rfl

theorem bind_of_eq_some {p : Reader α} {cs rest : List Char} {a : α} (h : p cs = some (a, rest))
    (f : α → Reader β) : (p >>= f) cs = f a rest := by
  rw [bind_apply, h]
  rfl

theorem satisfy_cons (p : Char → Bool) (c : Char) (cs : List Char) :
    satisfy p (c :: cs) = if p c then some (c, cs) else none := rfl

theorem char_cons (c d : Char) (cs : List Char) :
    char c (d :: cs) = if d = c then some ((), cs) else none := rfl

@[simp] theorem char_cons_self (c : Char) (cs : List Char) : char c (c :: cs) = some ((), cs) := by
  simp [char]

theorem run_apply (p : Char → Bool) (cs : List Char) :
    run p cs = some (cs.takeWhile p, cs.dropWhile p) := rfl

end Reader

end MappedNetlist
