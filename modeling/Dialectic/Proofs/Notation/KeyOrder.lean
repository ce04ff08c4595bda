import Dialectic.Notation.Yaml.Reader
import Dialectic.Proofs.Document.FrontMatter

/-
  The reader of YAML that running takes keeps the keys of all
  records in order.

  Main theorems:
    * `Yaml.read?_inOrder`
-/

namespace Dialectic

------------------------------------------------------------
-- Scalars
------------------------------------------------------------

namespace Yaml

/- A real number is in order. -/
theorem realOf?_inOrder
    {cs : List Char}
    {value : Value}
    (hRead : realOf? cs = some value) :
    value.InOrder := by
  unfold realOf? at hRead
  dsimp only at hRead
  generalize List.contains _ (String.ofList cs) = special
    at hRead
  cases special with
  | true =>
      cases hRead
      exact .null
  | false =>
      rw [if_neg (by simp)] at hRead
      split at hRead
      · cases hRead
      · rcases Option.map_eq_some_iff.mp hRead with ⟨x, _, hSame⟩
        rw [← hSame]
        exact .number _

/- A whole number is in order. -/
theorem wholeValue?_inOrder
    {n : Int}
    {value : Value}
    (hRead : wholeValue? n = some value) :
    value.InOrder := by
  unfold wholeValue? at hRead
  split at hRead
  · cases hRead
    exact .number _
  · cases hRead

/- A plain scalar is in order. -/
theorem plainValue?_inOrder
    {text : String}
    {value : Value}
    (hRead : plainValue? text = some value) :
    value.InOrder := by
  simp only [plainValue?] at hRead
  split at hRead
  · cases hRead
    exact .null
  · split at hRead
    · cases hRead
      exact .flag _
    · split at hRead
      · exact wholeValue?_inOrder hRead
      · split at hRead
        · cases hRead
          exact .text _
        · cases hRead
          cases hReal : realOf? text.toList with
          | none => exact .text _
          | some real => exact realOf?_inOrder hReal

/- A scalar is in order. -/
theorem scalarValue?_inOrder
    {tag : Option Tag}
    {text : String}
    {plain : Bool}
    {value : Value}
    (hRead : scalarValue? tag text plain = some value) :
    value.InOrder := by
  have hUntagged :
      (if plain then plainValue? text else some (.text text)) =
          some value →
        value.InOrder := by
    intro hPlain
    split at hPlain
    · exact plainValue?_inOrder hPlain
    · cases hPlain
      exact .text _
  cases tag with
  | none => exact hUntagged hRead
  | some tag =>
      simp only [scalarValue?] at hRead
      split at hRead
      · cases hRead
      split at hRead
      · rcases Option.map_eq_some_iff.mp hRead with
          ⟨b, _, hSame⟩
        rw [← hSame]
        exact .flag b
      split at hRead
      · rcases Option.bind_eq_some_iff.mp hRead with
          ⟨n, _, hWhole⟩
        exact wholeValue?_inOrder hWhole
      split at hRead
      · exact realOf?_inOrder hRead
      split at hRead
      · split at hRead
        · cases hRead
          exact .null
        · cases hRead
      split at hRead
      · exact hUntagged hRead
      · cases hRead
        exact .text _

------------------------------------------------------------
-- Nodes
------------------------------------------------------------

namespace Graph

/- If two readings succeed together, so does each alone. -/
theorem bind_some
    {α β : Type}
    {x : Reading α}
    {f : α → Reading β}
    {left rest : Nat}
    {b : β}
    (hBoth : (x >>= f) left = some (b, rest)) :
    ∃ a middle,
      x left = some (a, middle) ∧
        f a middle = some (b, rest) := by
  rcases Option.bind_eq_some_iff.mp hBoth with
    ⟨⟨a, middle⟩, hFirst, hSecond⟩
  exact ⟨a, middle, hFirst, hSecond⟩

/- A reading that is mapped succeeds if it does. -/
theorem map_some
    {α β : Type}
    {x : Reading α}
    {f : α → β}
    {left rest : Nat}
    {b : β}
    (hMapped : (f <$> x) left = some (b, rest)) :
    ∃ a, x left = some (a, rest) ∧ f a = b := by
  rcases Option.bind_eq_some_iff.mp hMapped with
    ⟨⟨a, middle⟩, hFirst, hSecond⟩
  cases hSecond
  exact ⟨a, hFirst, rfl⟩

/- Fields that are read one by one are in order. -/
theorem foldlM_inOrder
    (g : Graph)
    {inner : Node → Reading Value}
    (hInner : ∀ node left value rest,
      inner node left = some (value, rest) → value.InOrder)
    (fields : List (Node × Node))
    {start result : Record}
    {left rest : Nat}
    (hStart : (Value.record start).InOrder)
    (hRead :
      (fields.foldlM
          (fun record (key, node) => do
            let key ← g.readKey key
            let value ← inner node
            pure (record.insert key value))
          start : Reading Record) left =
        some (result, rest)) :
    (Value.record result).InOrder := by
  induction fields generalizing start left with
  | nil =>
      cases hRead
      exact hStart
  | cons field fields ih =>
      rw [List.foldlM_cons] at hRead
      rcases bind_some hRead with ⟨next, _, hNext, hRest⟩
      refine ih ?_ hRest
      rcases bind_some hNext with ⟨key, _, _, hValue⟩
      rcases bind_some hValue with ⟨value, _, hFound, hLast⟩
      cases hLast
      cases hStart with
      | record _ hKeys hFields =>
          refine .record _ (Record.inOrder_insert hKeys _ _) ?_
          intro f hMem
          rcases Record.mem_insert hMem with hNew | hOld
          · rw [hNew]
            exact hInner _ _ _ _ hFound
          · exact hFields f hOld

/- Items that are read one by one are in order. -/
theorem mapM_inOrder
    {inner : Node → Reading Value}
    (hInner : ∀ node left value rest,
      inner node left = some (value, rest) → value.InOrder)
    {nodes : List Node}
    {items : List Value}
    {left rest : Nat}
    (hRead : nodes.mapM inner left = some (items, rest)) :
    ∀ v ∈ items, v.InOrder := by
  induction nodes generalizing items left with
  | nil =>
      cases hRead
      simp
  | cons node nodes ih =>
      rw [List.mapM_cons] at hRead
      rcases bind_some hRead with ⟨value, _, hFirst, hRest⟩
      rcases bind_some hRest with ⟨values, _, hLater, hLast⟩
      cases hLast
      intro v hMem
      rcases List.mem_cons.mp hMem with hHere | hOther
      · rw [hHere]
        exact hInner _ _ _ _ hFirst
      · exact ih hLater v hOther

/- A node is in order if those inside it are. -/
theorem readWith_inOrder
    (g : Graph)
    {inner : Option (Node → Reading Value)}
    (hInner : ∀ f, inner = some f → ∀ node left value rest,
      f node left = some (value, rest) → value.InOrder)
    {node : Node}
    {left rest : Nat}
    {value : Value}
    (hRead :
      g.readWith inner node left = some (value, rest)) :
    value.InOrder := by
  unfold readWith at hRead
  rcases bind_some hRead with ⟨followed, middle, _, hFollowed⟩
  cases followed with
  | scalar tag text plain =>
      have hLifted :
          (scalarValue? tag text plain).bind
              (fun v => some (v, middle)) =
            some (value, rest) := by
        cases inner <;> exact hFollowed
      rcases Option.bind_eq_some_iff.mp hLifted with
        ⟨scalar, hScalar, hLast⟩
      cases hLast
      exact scalarValue?_inOrder hScalar
  | list tag items =>
      cases inner with
      | none => cases hFollowed
      | some f =>
          simp only at hFollowed
          split at hFollowed
          · cases hFollowed
          · rcases map_some hFollowed with
              ⟨values, hItems, hSame⟩
            rw [← hSame]
            exact .list _ (mapM_inOrder (hInner f rfl) hItems)
  | record tag fields =>
      cases inner with
      | none => cases hFollowed
      | some f =>
          simp only at hFollowed
          split at hFollowed
          · cases hFollowed
          · rcases map_some hFollowed with
              ⟨record, hFields, hSame⟩
            rw [← hSame]
            refine
              foldlM_inOrder g (hInner f rfl) fields ?_ hFields
            exact .record [] List.Pairwise.nil (by simp)
  | _ => cases inner <;> cases hFollowed

/- A node of any depth is in order. -/
theorem readWithin_inOrder
    (g : Graph)
    (depth : Nat)
    {node : Node}
    {left rest : Nat}
    {value : Value}
    (hRead :
      g.readWithin depth node left = some (value, rest)) :
    value.InOrder := by
  induction depth generalizing node left value rest with
  | zero => exact readWith_inOrder g (by simp) hRead
  | succ depth ih =>
      refine readWith_inOrder g ?_ hRead
      intro f hSame node left value rest hInner
      cases hSame
      exact ih hInner

end Graph

/- The value of a text is in order. -/
theorem read?_inOrder
    {s : String}
    {value : Value}
    (hRead : read? s = some value) :
    value.InOrder := by
  unfold read? at hRead
  split at hRead
  · cases hRead
  · rcases Option.bind_eq_some_iff.mp hRead with ⟨g, _, hValue⟩
    rcases Option.map_eq_some_iff.mp hValue with
      ⟨⟨found, rest⟩, hFound, hSame⟩
    cases hSame
    exact g.readWithin_inOrder _ hFound

instance lawfulReader : LawfulYamlReader :=
  ⟨read?_inOrder⟩

end Yaml

end Dialectic
