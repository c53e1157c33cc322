import CilPatch.Listing.Drawing

/-!
# Labels of a drawing end at their own quotes

`escapeChars` exchanges one kind of character after the other, each time in what the exchanges
before have left.  None of them finds anything to do in what an earlier one has written: they come
to the same as one pass, character by character (`escapeChars_eq`).  Everything else is said of
`escapeChar` first and then of a text by induction.

* `Reader`          how a quoted string is read: a backslash protects the next character, a quote
                    closes the string, and a line must not end in it;
* `unescape`        the text that escapes stand for, from left to right;
* `Enclosed`        texts which may stand between quotes as they are: those that were escaped
                    (`enclosed_escape`), and the labels made of them (`enclosed_nodeLabel`).
-/

namespace CilPatch

open CilPatch.Text

namespace Dot

/-! ## one pass -/

/-- the characters that stand behind a backslash -/
def special : List Char := ['\\', '"', '<', '>']

/-- what stands for one character inside a quoted string -/
def escapeChar (c : Char) : List Char :=
  if c = '\r' then [] else if c = '\n' then ['\\', 'n'] else if c ∈ special then ['\\', c] else [c]

/-- the four ways to write a character -/
theorem escapeChar_cases (c : Char) :
    (c = '\r' ∧ escapeChar c = []) ∨ (c = '\n' ∧ escapeChar c = ['\\', 'n']) ∨
      (c ∈ special ∧ escapeChar c = ['\\', c]) ∨
        (c ∉ '\r' :: '\n' :: special ∧ escapeChar c = [c]) := by
  unfold escapeChar
  by_cases h₁ : c = '\r'
  · exact .inl ⟨h₁, if_pos h₁⟩
  rw [if_neg h₁]
  by_cases h₂ : c = '\n'
  · exact .inr (.inl ⟨h₂, if_pos h₂⟩)
  rw [if_neg h₂]
  by_cases h₃ : c ∈ special
  · exact .inr (.inr (.inl ⟨h₃, if_pos h₃⟩))
  · exact .inr (.inr (.inr ⟨by simp [h₁, h₂, h₃], if_neg h₃⟩))

theorem mem_special {c : Char} : c ∈ special ↔ c = '\\' ∨ c = '"' ∨ c = '<' ∨ c = '>' := by
  simp [special]

theorem substitute_flatMap (c : Char) (new : List Char) (f : Char → List Char) (s : List Char) :
    substitute c new (s.flatMap f) = s.flatMap fun x => substitute c new (f x) :=
  List.flatMap_assoc

theorem escapeChars_singleton (c : Char) : escapeChars [c] = escapeChar c := by
  rcases escapeChar_cases c with ⟨rfl, h⟩ | ⟨rfl, h⟩ | ⟨hc, h⟩ | ⟨hc, h⟩
  · rfl
  · rfl
  · rcases mem_special.mp hc with rfl | rfl | rfl | rfl <;> rfl
  · rw [h]
    simp only [List.mem_cons, mem_special, not_or] at hc
    simp [escapeChars, substitute, hc]

/-- **The exchanges come to one pass**: what stands for a character hangs on no other one. -/
theorem escapeChars_eq (s : List Char) : escapeChars s = s.flatMap escapeChar :=
  calc escapeChars s
      = escapeChars (s.flatMap fun c => [c]) := by rw [List.flatMap_singleton']
    _ = s.flatMap fun c => escapeChars [c] := by
        unfold escapeChars
        simp only [substitute_flatMap]
    _ = s.flatMap escapeChar := by simp only [escapeChars_singleton]

example : escapeChars ['<', '\\', '"', '\r', '\n', '>'] =
    ['\\', '<', '\\', '\\', '\\', '"', '\\', 'n', '\\', '>'] := rfl

theorem toList_escape (s : String) : (escape s).toList = s.toList.flatMap escapeChar := by
  rw [escape, String.toList_ofList, escapeChars_eq]

/-! ## reading a quoted string -/

/-- where the reader of a quoted string stands: in the text, behind a backslash, which protects the
next character, behind the quote that closes the string, or behind the end of a line inside it -/
inductive Reader where
  | text | protecting | closed | broken
deriving DecidableEq

namespace Reader

/-- one character more; a line must not end in the string, behind a backslash or not -/
def next : Reader → Char → Reader
  | text, '\\' => protecting
  | text, '"' => closed
  | text, '\n' | text, '\r' | protecting, '\n' | protecting, '\r' => broken
  | text, _ | protecting, _ => text
  | closed, _ => closed
  | broken, _ => broken

def read (r : Reader) (s : List Char) : Reader := s.foldl next r

/-- the string is neither closed nor broken off -/
def Inside (r : Reader) : Prop := r = text ∨ r = protecting

theorem read_append (r : Reader) (s t : List Char) : r.read (s ++ t) = (r.read s).read t :=
  List.foldl_append

/-- what is closed or broken off stays so -/
theorem inside_of_next {r : Reader} {c : Char} (h : (r.next c).Inside) : r.Inside := by
  cases r with
  | text => exact .inl rfl
  | protecting => exact .inr rfl
  | closed => exact h
  | broken => exact h

theorem inside_of_read {r : Reader} {s : List Char} (h : (r.read s).Inside) : r.Inside := by
  induction s generalizing r with
  | nil => exact h
  | cons c s ih => exact inside_of_next (ih h)

/-- a reader who is inside at the end was inside all the way -/
theorem inside_of_prefix {r : Reader} {front s : List Char} (hp : front <+: s)
    (h : (r.read s).Inside) : (r.read front).Inside := by
  obtain ⟨back, rfl⟩ := hp
  rw [read_append] at h
  exact inside_of_read h

/-- the characters that mean more to the reader of a text than themselves -/
def heeded : List Char := ['\r', '\n', '\\', '"']

theorem next_of_not_heeded {c : Char} (h : c ∉ heeded) : text.next c = text := by
  unfold next
  split <;> simp_all [heeded]

theorem read_of_not_heeded {s : List Char} (h : ∀ c ∈ s, c ∉ heeded) : text.read s = text := by
  induction s with
  | nil => rfl
  | cons c s ih =>
    obtain ⟨hc, hs⟩ := List.forall_mem_cons.mp h
    show (text.next c).read s = text
    rw [next_of_not_heeded hc, ih hs]

/-- what stands for a character leads from the text back into the text -/
theorem read_escapeChar (c : Char) : text.read (escapeChar c) = text := by
  rcases escapeChar_cases c with ⟨-, h⟩ | ⟨-, h⟩ | ⟨hc, h⟩ | ⟨hc, h⟩
  · rw [h]
    rfl
  · rw [h]
    rfl
  · rw [h]
    rcases mem_special.mp hc with rfl | rfl | rfl | rfl <;> rfl
  · have hall : heeded ⊆ '\r' :: '\n' :: special := by decide
    rw [h]
    exact next_of_not_heeded fun hm => hc (hall hm)

end Reader

open Reader

/-! ## the text that escapes stand for -/

/-- `s` with its escapes undone: an `n` behind a backslash is the end of a line, anything else
behind it is itself -/
def unescape : List Char → List Char
  | [] => []
  | '\\' :: 'n' :: s => '\n' :: unescape s
  | '\\' :: c :: s => c :: unescape s
  | c :: s => c :: unescape s

theorem unescape_cons {c : Char} (h : c ≠ '\\') (s : List Char) :
    unescape (c :: s) = c :: unescape s := by
  rw [unescape.eq_def]
  split <;> simp_all

theorem unescape_escapeChar (c : Char) (s : List Char) :
    unescape (escapeChar c ++ s) = [c].filter (· != '\r') ++ unescape s := by
  rcases escapeChar_cases c with ⟨rfl, h⟩ | ⟨rfl, h⟩ | ⟨hc, h⟩ | ⟨hc, h⟩
  · rw [h]
    rfl
  · rw [h]
    rfl
  · rw [h]
    rcases mem_special.mp hc with rfl | rfl | rfl | rfl <;> rfl
  · rw [h]
    simp only [List.mem_cons, mem_special, not_or] at hc
    rw [List.filter_cons_of_pos (by simpa using hc.1)]
    exact unescape_cons hc.2.2.1 s

theorem unescape_flatMap_escapeChar (s : List Char) :
    unescape (s.flatMap escapeChar) = s.filter (· != '\r') := by
  induction s with
  | nil => rfl
  | cons c s ih =>
    rw [List.flatMap_cons, unescape_escapeChar, ih, ← List.filter_append]
    rfl

/-! ## labels -/

/-- the text can stand between quotes as it is: they are the quotes of one string, which ends where
it is meant to -/
def Enclosed (s : String) : Prop := Reader.text.read s.toList = .text

theorem Enclosed.append {s t : String} (hs : Enclosed s) (ht : Enclosed t) : Enclosed (s ++ t) := by
  unfold Enclosed at *
  rw [String.toList_append, read_append, hs, ht]

theorem enclosed_join {ss : List String} (h : ∀ s ∈ ss, Enclosed s) :
    Enclosed (String.join ss) := by
  induction ss with
  | nil => rfl
  | cons s ss ih =>
    obtain ⟨hs, hss⟩ := List.forall_mem_cons.mp h
    rw [String.join_cons]
    exact hs.append (ih hss)

theorem enclosed_escape (s : String) : Enclosed (escape s) := by
  unfold Enclosed
  rw [toList_escape]
  induction s.toList with
  | nil => rfl
  | cons c s ih => rw [List.flatMap_cons, read_append, read_escapeChar, ih]

theorem isAlphanum_of_mem_toDigits {base n : Nat} {c : Char} (h₁ : 1 < base) (h₂ : base ≤ 16)
    (h : c ∈ Nat.toDigits base n) : c.isAlphanum = true := by
  have hdigit : ∀ d < 16, (Nat.digitChar d).isAlphanum = true := by decide
  induction n using Nat.strongRecOn with
  | ind n ih =>
    rw [Nat.toDigits_eq_if h₁] at h
    split at h
    · next hlt =>
      rw [List.mem_singleton.mp h]
      exact hdigit n (by omega)
    · next hge =>
      rcases List.mem_append.mp h with h | h
      · exact ih (n / base) (Nat.div_lt_self (by omega) h₁) h
      · rw [List.mem_singleton.mp h]
        exact hdigit _ (Nat.lt_of_lt_of_le (Nat.mod_lt n (Nat.zero_lt_of_lt h₁)) h₂)

theorem enclosed_of_isAlphanum {s : String} (h : ∀ c ∈ s.toList, c.isAlphanum = true) :
    Enclosed s := by
  have hnone : ∀ c ∈ heeded, c.isAlphanum = false := by
    simp only [heeded, List.forall_mem_cons]
    exact ⟨rfl, rfl, rfl, rfl, nofun⟩
  refine read_of_not_heeded fun c hc hm => ?_
  have hyes := h c hc
  rw [hnone c hm] at hyes
  cases hyes

theorem enclosed_decimal (n : Nat) : Enclosed (decimal n) := by
  refine enclosed_of_isAlphanum fun c hc => ?_
  rw [decimal, Nat.repr_eq_ofList_toDigits, String.toList_ofList] at hc
  exact isAlphanum_of_mem_toDigits (by omega) (by omega) hc

theorem enclosed_positionText (i : Nat) : Enclosed (positionText i) := by
  have hhex : Enclosed (hex4 i) := by
    refine enclosed_of_isAlphanum fun c hc => ?_
    rw [hex4, fillLeft, String.toList_append, String.toList_ofList, hex, String.toList_ofList,
      List.mem_append] at hc
    rcases hc with hc | hc
    · rw [List.eq_of_mem_replicate hc]
      rfl
    · exact isAlphanum_of_mem_toDigits (by omega) (Nat.le_refl 16) hc
  exact Enclosed.append rfl hhex

/-- **The label of a block ends at its own quote**, whatever the texts of its instructions are. -/
theorem enclosed_nodeLabel (body : Body) (g : FlowGraph) (b : Nat) (block : Block) :
    Enclosed (nodeLabel body g b block) := by
  have hname : Enclosed (nodeName b) := Enclosed.append rfl (enclosed_decimal b)
  have hentry : Enclosed (if b = g.entry then " (entry)" else "") := by split <;> rfl
  have hexit : Enclosed (if g.exits.contains b then " (exit)" else "") := by split <;> rfl
  have hcolon : Enclosed ": " := rfl
  have hend : Enclosed lineEnd := rfl
  have hlines : Enclosed (String.join ((block.instructions body).map fun y =>
      positionText y.1 ++ ": " ++ escape y.2.text ++ lineEnd)) := by
    refine enclosed_join fun s hs => ?_
    obtain ⟨y, -, rfl⟩ := List.mem_map.mp hs
    exact (((enclosed_positionText y.1).append hcolon).append (enclosed_escape _)).append hend
  have hplace : Enclosed (nodeName b ++ "_" ++ positionText block.start) :=
    (hname.append (show Enclosed "_" from rfl)).append (enclosed_positionText _)
  exact (((hplace.append hentry).append hexit).append hend).append hlines

theorem enclosed_title (title : String) : Enclosed ("CFG: " ++ escape title) :=
  Enclosed.append rfl (enclosed_escape title)

theorem enclosed_arrowStyle (kind : EdgeKind) : Enclosed (arrowStyle kind).1 := by
  cases kind with
  | switchCase k => exact Enclosed.append rfl (enclosed_decimal k)
  | _ => rfl

/-- **Escaped texts cannot break out of their quotes, and lose nothing but carriage returns.**  To
escape is to write each character by itself; nowhere in what is written does the string close or a
line end, nor does it end behind a backslash; and the text can be read back. -/
theorem escape_injection_safe (s : String) :
    (escape s).toList = s.toList.flatMap escapeChar ∧
      (∀ front, front <+: (escape s).toList → (Reader.text.read front).Inside) ∧
        Reader.text.read (escape s).toList = .text ∧
          unescape (escape s).toList = s.toList.filter (· != '\r') := by
  have hread : Reader.text.read (escape s).toList = .text := enclosed_escape s
  refine ⟨toList_escape s, fun front hp => inside_of_prefix hp (.inl hread), hread, ?_⟩
  rw [toList_escape, unescape_flatMap_escapeChar]

end Dot

end CilPatch
