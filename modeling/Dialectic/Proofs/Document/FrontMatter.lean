import Dialectic.Proofs.Data.Layer
import Dialectic.Proofs.Document.Policy

/-
  The front matter of a document has its keys in order, if all
  records have that are read as data.

  Key definitions include:
    * `LawfulYamlReader`

  Main theorems:
    * `Document.frontMatter_inOrder`
-/

namespace Dialectic

/-
  A reader of YAML keeps the keys of records in order, as the
  records of a document do wherever they come from.
-/
class LawfulYamlReader [YamlReader] : Prop where
  inOrder : ∀ {content : String} {value : Value},
    YamlReader.read? content = some value → value.InOrder

/- Reading that goes on after a first part. -/
theorem Parser.bind_ok
    {α β : Type}
    {x : Parsing α}
    {f : α → Parsing β}
    {faults last : List SyntaxFault}
    {b : β}
    (hBoth : (x >>= f) faults = .ok (b, last)) :
    ∃ a middle,
      x faults = .ok (a, middle) ∧
        f a middle = .ok (b, last) := by
  cases hFirst : x faults with
  | error fault =>
      simp [bind, StateT.bind, Except.bind, hFirst] at hBoth
  | ok result =>
      simp only [bind, StateT.bind, Except.bind, hFirst]
        at hBoth
      exact ⟨result.1, result.2, rfl, hBoth⟩

variable [YamlReader]

/- Data that is read is in order. -/
theorem DataPlace.read_inOrder
    [LawfulYamlReader]
    {place : DataPlace}
    {content : String}
    {position : Position}
    {fields : Record}
    (hRead : place.read content position = .ok fields) :
    (Value.record fields).InOrder := by
  have hEmpty : (Value.record []).InOrder :=
    .record [] List.Pairwise.nil (by simp)
  unfold DataPlace.read at hRead
  split at hRead
  · cases hRead
    exact hEmpty
  · split at hRead
    · cases hRead
    · next hValue =>
        cases hRead
        exact LawfulYamlReader.inOrder hValue
    · cases hRead
      exact hEmpty
    · cases hRead

/- Front matter that is read is in order. -/
theorem Parser.frontMatter_inOrder
    [LawfulYamlReader]
    {policy : FaultPolicy}
    {found : Option Lexer.FrontMatter}
    {faults last : List SyntaxFault}
    {fields : Record}
    (hRead :
      frontMatter policy found faults =
        .ok (some fields, last)) :
    (Value.record fields).InOrder := by
  cases found with
  | none => cases hRead
  | some found =>
      simp only [frontMatter, readData] at hRead
      cases hData :
        DataPlace.read .frontMatter found.content
          found.position with
      | ok data =>
          simp only [hData] at hRead
          cases hRead
          exact DataPlace.read_inOrder hData
      | error fault =>
          simp only [hData] at hRead
          rcases bind_ok hRead with ⟨_, _, _, hLast⟩
          cases hLast

/- The front matter of a document is in order. -/
theorem Document.frontMatter_inOrder
    [LawfulYamlReader]
    {input : String}
    {fields : Record}
    (hFields :
      (Document.read input).document.frontMatter =
        some fields) :
    (Value.record fields).InOrder := by
  rcases parse_policies input with ⟨parsed, hParse, _⟩
  rw [show read input = parsed by simp [read, hParse]]
    at hFields
  simp only [parse] at hParse
  split at hParse
  · next hDocument =>
      cases hParse
      rcases Parser.bind_ok hDocument with
        ⟨front, _, hFront, hRest⟩
      rcases Parser.bind_ok hRest with ⟨found, _, _, hLast⟩
      cases hLast
      rw [show front = some fields from hFields] at hFront
      exact Parser.frontMatter_inOrder hFront
  · cases hParse

end Dialectic
