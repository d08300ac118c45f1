import Eter.NodePool

/-!
# The string interner

A map from contents to identifiers with the contents in order of first use; identifier 0 stands for
no string. The identifiers of the map are those of its contents.
-/

namespace Eter.Parser

structure StringInterner where
  table : List (Bytes × InternedStr)
  strings : List Bytes
  issued : ∀ e ∈ table, strings[e.2]? = some e.1
  deriving DecidableEq, Repr

namespace StringInterner

def new : StringInterner := ⟨[], [[]], by simp⟩

def find (s : StringInterner) (text : Bytes) : Option InternedStr :=
  (s.table.find? fun e => e.1 == text).map (·.2)

def intern (s : StringInterner) (text : Bytes) : InternedStr × StringInterner :=
  match s.find text with
  | some id => (id, s)
  | none =>
    (s.strings.length,
      { table := s.table ++ [(text, s.strings.length)]
        strings := s.strings ++ [text]
        issued := by
          intro e he
          rcases List.mem_append.mp he with he | he
          · have h := s.issued e he
            rwa [List.getElem?_append_left (List.getElem?_eq_some_iff.mp h).1]
          · rw [List.mem_singleton.mp he, List.getElem?_concat_length] })

def get? (s : StringInterner) (id : InternedStr) : Option Bytes := s.strings[id]?

/-- Interning gives an identifier of the text. -/
theorem get?_intern (s : StringInterner) (text : Bytes) :
    (s.intern text).2.get? (s.intern text).1 = some text := by
  unfold intern find get?
  cases h : s.table.find? fun e => e.1 == text with
  | some e =>
    have htext : e.1 = text := by simpa using List.find?_some h
    simpa [htext] using s.issued e (List.mem_of_find?_eq_some h)
  | none => simp

/-- Interning keeps the identifiers issued before. -/
theorem get?_intern_of_get? {s : StringInterner} {id : InternedStr} {t : Bytes}
    (h : s.get? id = some t) (text : Bytes) : (s.intern text).2.get? id = some t := by
  unfold intern get? at *
  cases hf : s.find text with
  | some id' => simpa [hf] using h
  | none =>
    dsimp only
    rwa [List.getElem?_append_left (List.getElem?_eq_some_iff.mp h).1]

def size (s : StringInterner) : ℕ := s.strings.length - 1

end StringInterner

end Eter.Parser
