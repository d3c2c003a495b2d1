import RequestEngine.Json.Reader.Basic
import RequestEngine.Number.Hexadecimal
import RequestEngine.Text.Bytes

/-! Strings in JSON text: their escapes, and how they are read or only passed over. -/
namespace RequestEngine.Json

open Reader

def faultAt {α : Type} (f : SyntaxFault) (rest : List Char) (ahead : Nat) : Except Failure α :=
  .error ⟨.fault f, some ⟨rest, ahead⟩⟩

def hexQuad : List Char → Except Failure (Nat × List Char)
  | cs@(a :: b :: c :: d :: rest) =>
    match Hexadecimal.ofDigits? [a, b, c, d] with
    | some n => .ok (n, rest)
    | none => faultAt .invalidEscape cs 4
  | cs => if 4 ≤ Text.byteCount cs then faultAt .invalidEscape cs 4 else faultAt .endInString [] 0

/-- The character an escape stands for, and the rest after it. Code points beyond the first plane
are written as a pair of surrogates. -/
def unescape : List Char → Except Failure (Char × List Char)
  | [] => faultAt .endInString [] 0
  | 'u' :: cs =>
    match hexQuad cs with
    | .error e => .error e
    | .ok (high, rest) =>
      if 0xDC00 ≤ high ∧ high ≤ 0xDFFF then faultAt .loneSurrogate rest 0
      else if high < 0xD800 ∨ 0xDBFF < high then .ok (Char.ofNat high, rest)
      else match rest with
        | [] => faultAt .endInString [] 0
        | '\\' :: rest =>
          match rest with
          | [] => faultAt .endInString [] 0
          | 'u' :: rest =>
            match hexQuad rest with
            | .error e => .error e
            | .ok (low, rest) =>
              if low < 0xDC00 ∨ 0xDFFF < low then faultAt .loneSurrogate rest 0
              else .ok (Char.ofNat ((high - 0xD800) * 0x400 + (low - 0xDC00) + 0x10000), rest)
          | rest => faultAt .endOfSurrogatePair rest 1
        | rest => faultAt .endOfSurrogatePair rest 1
  | c :: cs =>
    match c with
    | '"' => .ok ('"', cs)
    | '\\' => .ok ('\\', cs)
    | '/' => .ok ('/', cs)
    | 'b' => .ok ('\x08', cs)
    | 'f' => .ok ('\x0c', cs)
    | 'n' => .ok ('\n', cs)
    | 'r' => .ok ('\r', cs)
    | 't' => .ok ('\t', cs)
    | _ => faultAt .invalidEscape (c :: cs) 1

def skipEscape : List Char → Except Failure (List Char)
  | [] => faultAt .endInString [] 0
  | 'u' :: cs => (hexQuad cs).map (·.2)
  | c :: cs => (unescape (c :: cs)).map (·.2)

theorem hexQuad_length {cs rest : List Char} {n : Nat} (h : hexQuad cs = .ok (n, rest)) :
    rest.length < cs.length := by
  unfold hexQuad at h
  split at h
  · split at h
    · simp only [Except.ok.injEq, Prod.mk.injEq] at h
      simp [← h.2]; omega
    · simp [faultAt] at h
  · split at h <;> simp [faultAt] at h

theorem unescape_length {cs rest : List Char} {c : Char} (h : unescape cs = .ok (c, rest)) :
    rest.length < cs.length := by
  unfold unescape at h
  split at h
  · simp [faultAt] at h
  · split at h
    · simp at h
    · rename_i hq
      have hlen := hexQuad_length hq
      split at h
      · simp [faultAt] at h
      · split at h
        · simp only [Except.ok.injEq, Prod.mk.injEq] at h
          simp [← h.2]; omega
        · split at h
          · simp [faultAt] at h
          · split at h
            · simp [faultAt] at h
            · split at h
              · simp at h
              · rename_i hq'
                have hlen' := hexQuad_length hq'
                split at h
                · simp [faultAt] at h
                · simp only [Except.ok.injEq, Prod.mk.injEq] at h
                  simp only [List.length_cons] at hlen ⊢
                  rw [← h.2]; omega
            · simp [faultAt] at h
          · simp [faultAt] at h
  · split at h <;> simp [faultAt] at h <;> simp [← h.2]

theorem skipEscape_length {cs rest : List Char} (h : skipEscape cs = .ok rest) :
    rest.length < cs.length := by
  unfold skipEscape at h
  split at h
  · simp [faultAt] at h
  · rename_i cs'
    cases hq : hexQuad cs' with
    | error e => simp [hq, Except.map] at h
    | ok p =>
      have := @hexQuad_length _ p.2 p.1 hq
      simp only [hq, Except.map, Except.ok.injEq] at h
      simp [← h]; omega
  · rename_i c cs' _
    cases hq : unescape (c :: cs') with
    | error e => simp [hq, Except.map] at h
    | ok p =>
      have := @unescape_length _ p.2 p.1 hq
      simp only [hq, Except.map, Except.ok.injEq] at h
      rw [← h]; exact this

def stringBody (cs : List Char) : Except Failure (List Char × List Char) :=
  match cs with
  | [] => faultAt .endInString [] 0
  | '"' :: rest => .ok ([], rest)
  | '\\' :: rest =>
    match _h : unescape rest with
    | .error e => .error e
    | .ok (c, rest) => (stringBody rest).map fun p => (c :: p.1, p.2)
  | c :: rest =>
    if c.toNat < 0x20 then faultAt .controlCharacter (c :: rest) 1
    else (stringBody rest).map fun p => (c :: p.1, p.2)
termination_by cs.length
decreasing_by
  · have := unescape_length _h; simp only [List.length_cons]; omega
  · simp

/-- Pass over a string up to its closing quote. Unlike in a string that is read, a control
character is noticed before it is passed. -/
def skipString (cs : List Char) : Except Failure (List Char) :=
  match cs with
  | [] => faultAt .endInString [] 0
  | '"' :: rest => .ok rest
  | '\\' :: rest =>
    match _h : skipEscape rest with
    | .error e => .error e
    | .ok rest => skipString rest
  | c :: rest =>
    if c.toNat < 0x20 then faultAt .controlCharacter (c :: rest) 0 else skipString rest
termination_by cs.length
decreasing_by
  · have := skipEscape_length _h; simp only [List.length_cons]; omega
  · simp

def readString : Reader String := do
  match stringBody (← get) with
  | .error e => throw e
  | .ok (cs, rest) => set rest; return String.ofList cs

def passString : Reader Unit := do
  match skipString (← get) with
  | .error e => throw e
  | .ok rest => set rest

end RequestEngine.Json
