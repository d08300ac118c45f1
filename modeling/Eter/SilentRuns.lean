import Eter.Expressions
import Eter.NestedLoops

/-!
# Runs that build a tree and report nothing

A computation goes on to a later token, with nodes and names added and with no diagnostic; in the end
a node stands for the tree of what was read.
-/

namespace Eter.Parser
open Stateful NodePool

variable {s t u : PState} {j k : ℕ} {x : NodeIndex} {tr : SyntaxTree}

/-! ### Trees that stay -/

theorem PState.Appended.keeps (h : s.Appended t) (hs : s.Ordered) : s.Keeps t := by
  obtain ⟨rs, hp, -⟩ := hs
  obtain ⟨rs', hp'⟩ := h.records rs hp
  rintro (_ | i) data hdata
  · cases hdata
  rw [hp, poolOf_get?] at hdata
  obtain ⟨r, hr, rfl⟩ := Option.map_eq_some_iff.mp hdata
  have hlt : i < rs.length := (List.getElem?_eq_some_iff.mp hr).1
  have hr' : (rs ++ rs')[i]? = some r := by rw [List.getElem?_append_left hlt, hr]
  have hbegin : kidsBegin (rs ++ rs') i = kidsBegin rs i := by
    unfold kidsBegin
    rw [List.take_append_of_le_length hlt.le]
  refine ⟨?_, ?_⟩
  · rw [hp', get?_of_record hr', nodeAt, nodeAt, hbegin]
  · rw [hp, hp', childrenOf_of_record hr, childrenOf_of_record hr']

theorem PState.Denotes.appended (h : s.Denotes x tr) (hs : s.Ordered) (hst : s.Appended t) :
    t.Denotes x tr :=
  h.later (hst.keeps hs) hst.names

/-! ### Runs -/

/-- The run has come to token `j`; it added nodes and names and reported nothing. -/
structure PState.Reaches (s : PState) (j : ℕ) (t : PState) : Prop extends s.Shares t where
  cursor : t.stream.cursor = j
  errors : t.errors = s.errors
  appended : s.Appended t
  ordered : t.Ordered

theorem PState.Ordered.refl (h : s.Ordered) : s.Reaches s.stream.cursor s :=
  ⟨.refl s, rfl, rfl, .refl s, h⟩

theorem PState.Reaches.trans (h : s.Reaches j t) (h' : t.Reaches k u) : s.Reaches k u :=
  ⟨h.toShares.trans h'.toShares, h'.cursor, h'.errors.trans h.errors,
    h.appended.trans h'.appended, h'.ordered⟩

theorem PState.Ordered.moved (h : s.Ordered) : s.Reaches (s.stream.cursor + 1) s.moved :=
  ⟨⟨rfl, rfl, rfl⟩, rfl, rfl, ⟨fun rs hp => ⟨[], by rw [List.append_nil]; exact hp⟩,
    fun _ _ hid => hid⟩, h⟩

theorem PState.Reaches.moved (h : s.Reaches j t) : s.Reaches (j + 1) t.moved := by
  have hmoved := h.ordered.moved
  rw [h.cursor] at hmoved
  exact h.trans hmoved

theorem PState.Reaches.kind (h : s.Reaches j t) : t.stream.peek 0 = s.kindAt j :=
  PState.peek_of_shares h.toShares h.cursor

/-- With another flag in between. -/
theorem PState.Reaches.allow {lit : Bool} (h : (s.allow lit).Reaches j t) :
    s.Reaches j (t.allow s.structLitAllowed) :=
  ⟨⟨h.tokens, h.source, rfl⟩, h.cursor, h.errors, ⟨h.appended.records, h.appended.names⟩, h.ordered⟩

theorem PState.Reaches.lift (h : s.Reaches j t) (lit : Bool) :
    (s.allow lit).Reaches j (t.allow lit) :=
  ⟨h.toShares.allow lit, h.cursor, h.errors, ⟨h.appended.records, h.appended.names⟩, h.ordered⟩

/-- The node stands for the tree. -/
structure PState.Parsed (s : PState) (j : ℕ) (tr : SyntaxTree) (x : NodeIndex) (t : PState) : Prop
    extends s.Reaches j t where
  has : t.Has x
  denotes : t.Denotes x tr

/-- With another flag in between. -/
theorem PState.Parsed.allow {lit : Bool} (h : (s.allow lit).Parsed j tr x t) :
    s.Parsed j tr x (t.allow s.structLitAllowed) :=
  ⟨h.toReaches.allow, h.has,
    h.denotes.later (t := t.allow s.structLitAllowed) (fun _ _ hd => ⟨hd, rfl⟩) fun _ _ hid => hid⟩

/-! ### Steps -/

theorem PState.Reaches.intern (h : s.Reaches j t) (text : Bytes) :
    Yields (intern text) (fun id u => s.Reaches j u ∧ t.Reaches t.stream.cursor u ∧
      u.interner.get? id = some text) t := by
  obtain ⟨id, u, hrun, hu⟩ : Yields (Parser.intern text) (fun id u => t.Reaches t.stream.cursor u ∧
      u.interner.get? id = some text) t := by
    refine ⟨_, _, rfl, ⟨⟨rfl, rfl, rfl⟩, rfl, rfl, ⟨fun rs hp => ⟨[], ?_⟩, fun id text' hid => ?_⟩,
      h.ordered⟩, StringInterner.get?_intern _ _⟩
    · rw [List.append_nil]
      exact hp
    · exact StringInterner.get?_intern_of_get? hid text
  have hall := h.trans hu.1
  rw [h.cursor] at hall
  exact ⟨id, u, hrun, hall, hu⟩

end Eter.Parser
