import Dialectic.Notation.Yaml.Reader
import Dialectic.Proofs.Map.Depiction
import Dialectic.Proofs.Model.History

/-
  The nodes of a map are in the order in which the elements
  that they stand for appear first in the document.

  Key definitions include:
    * `MapBuilder.offsetOf`
    * `Document.appearance?`

  Main theorems:
    * `MapBuilder.elements_pairwise`
    * `MapBuilder.lookup_eq_offsetOf`
    * `MapBuilder.Nodes.StandFor.heads_pairwise`
    * `ArgumentMap.build_follows_document`
-/

namespace Dialectic

namespace MapBuilder

variable {m : Model}

------------------------------------------------------------
-- Offsets of Elements
------------------------------------------------------------

/- The offset by which an element is sorted. -/
def offsetOf (m : Model) : Element → Nat
| .statement title => classOffset m title
| .argument title =>
    match m.argument? title with
    | some a => a.span.start.offset
    | none => nowhere

/- The offsets of the selected elements do not decrease. -/
theorem elements_pairwise
    (hIntact : m.IsIntact)
    (s : Selection) :
    (elements m s).Pairwise
      (fun a b => offsetOf m a ≤ offsetOf m b) := by
  unfold elements
  simp only
  rw [List.pairwise_map]
  apply (Sequence.sortBy_pairwise Prod.fst _).imp_of_mem
  have hKeys : ∀ p ∈ Sequence.sortBy Prod.fst
      ((m.classes.filter
          (fun c => s.statements.contains c.title)).map
            (fun c =>
              (classOffset m c.title,
                Element.statement c.title))
        ++ (m.arguments.filter
          (fun a => s.arguments.contains a.title)).map
            (fun a =>
              (a.span.start.offset,
                Element.argument a.title))),
      p.1 = offsetOf m p.2 := by
    intro p hp
    rcases List.mem_append.mp
      ((Sequence.sortBy_perm _ _).mem_iff.mp hp) with hp | hp
    · rcases List.mem_map.mp hp with ⟨c, _, rfl⟩
      rfl
    · rcases List.mem_map.mp hp with ⟨a, ha, rfl⟩
      have hFound : m.argument? a.title = some a :=
        (hIntact.argument?_iff a.title a).mpr
          ⟨List.mem_of_mem_filter ha, rfl⟩
      simp [offsetOf, hFound]
  intro a b ha hb hLess
  rw [← hKeys a ha, ← hKeys b hb]
  exact hLess

/- Elements that are left out are not looked up. -/
theorem lookup_filter_statements
    (seen : List (Element × Nat))
    (title : String) :
    (seen.filter
        (fun appearance => appearance.1.isStatement)).lookup
        (.statement title) =
      seen.lookup (.statement title) := by
  induction seen with
  | nil => rfl
  | cons appearance seen ih =>
      rcases appearance with ⟨element, offset⟩
      cases element with
      | argument other =>
          have hLeft : ¬ (Element.argument other).isStatement :=
            Bool.false_ne_true
          have hOther :
              (Element.statement title == .argument other) =
                false := rfl
          rw [List.filter_cons, if_neg hLeft, ih,
            List.lookup_cons, hOther]
      | statement other =>
          have hKept : (Element.statement other).isStatement :=
            rfl
          rw [List.filter_cons, if_pos hKept, List.lookup_cons,
            List.lookup_cons, ih]

/- The first statement of a title is looked up. -/
theorem lookup_placeOf
    (statements : List Statement)
    (title : String) :
    (statements.map Model.placeOf).lookup (.statement title) =
      ((statements.filter
        (fun s => s.title == title)).head?).map
          (fun s => s.span.start.offset) := by
  induction statements with
  | nil => rfl
  | cons s statements ih =>
      rw [List.map_cons, Model.placeOf, List.lookup_cons]
      by_cases hSame : title = s.title
      · simp [hSame]
      · have hNot :
            (Element.statement title == .statement s.title) =
              false := by
          simpa using hSame
        simp [hNot, Ne.symm hSame, ih]

/-
  In a model that places what has appeared, the offset of an
  element is that of its first appearance.
-/
theorem lookup_eq_offsetOf
    (hLinked : m.Linked)
    {seen : List (Element × Nat)}
    (hPlaces : m.Places seen)
    {element : Element}
    (hThere : m.contains element = true) :
    seen.lookup element = some (offsetOf m element) := by
  cases element with
  | argument title =>
      rw [Model.contains, ← Model.argument?_isSome] at hThere
      rcases Option.isSome_iff_exists.mp hThere with ⟨a, ha⟩
      rw [← hPlaces.arguments]
      simp [Model.argumentOffset?, offsetOf, ha]
  | statement title =>
      have hMembers := hLinked.members_filter hThere
      have hFirst :
          seen.lookup (.statement title) =
            ((m.members title).head?).map
              (fun s => s.span.start.offset) := by
        rw [hMembers, ← lookup_placeOf, hPlaces.statements,
          lookup_filter_statements]
      have hSome :=
        hPlaces.classes title
          (Model.contains_statement_iff.mp hThere)
      rw [hFirst, offsetOf, classOffset]
      cases hList : m.members title with
      | cons s rest => rfl
      | nil =>
          rw [hList] at hFirst
          exact (not_mem_of_lookup hFirst hSome).elim

------------------------------------------------------------
-- Order of Nodes
------------------------------------------------------------

/-
  If the elements have been added in order, so are the first
  elements of the nodes, and each node's first element comes
  before its other ones.
-/
theorem Nodes.StandFor.heads_pairwise
    {ns : Nodes}
    {done : List Element}
    (hNodes : ns.StandFor m done)
    {R : Element → Element → Prop}
    (hRefl : ∀ element, R element element)
    (hOrder : done.Pairwise R) :
    ns.nodes.Pairwise (fun x y =>
        ∀ a b, x.elements.head? = some a →
          y.elements.head? = some b → R a b) ∧
      ∀ n ∈ ns.nodes, ∀ a, n.elements.head? = some a →
        ∀ element ∈ n.elements, R a element := by
  constructor
  · have hHeads :
        (ns.nodes.map (fun n => n.elements.head?)).Pairwise
          (fun p q => ∀ a b, p = some a → q = some b →
            R a b) := by
      apply List.Pairwise.sublist hNodes.heads
      rw [List.pairwise_map]
      apply hOrder.imp
      intro a b hBefore c d hc hd
      cases hc
      cases hd
      exact hBefore
    exact List.pairwise_map.mp hHeads
  · intro n hn a hHead element hElement
    have hWithin := hOrder.sublist (hNodes.within n hn)
    cases hElements : n.elements with
    | nil => simp [hElements] at hHead
    | cons first rest =>
        rw [hElements] at hHead hElement hWithin
        cases hHead
        rcases List.mem_cons.mp hElement with rfl | hLater
        · exact hRefl _
        · exact
            (List.pairwise_cons.mp hWithin).1 element hLater

end MapBuilder

------------------------------------------------------------
-- Order of the Document
------------------------------------------------------------

/-
  The smallest offset at which any of the elements that a node
  stands for occurs in a document.
-/
def Document.appearance? (d : Document) (n : MapNode) :
    Option Nat :=
  ((d.appearances.filter (fun a => n.represents a.1)).map
    Prod.snd).min?

namespace ArgumentMap

/-
  The smallest offset of a node is that of its first element,
  if each element is first recorded at its smallest offset.
-/
theorem appearance?_eq
    {d : Document}
    (hFirst : FirstLeast [] d.appearances)
    {m : Model}
    {n : MapNode}
    {first : Element}
    (hHead : n.elements.head? = some first)
    (hOffsets : ∀ element ∈ n.elements,
      d.appearances.lookup element =
          some (MapBuilder.offsetOf m element) ∧
        MapBuilder.offsetOf m first ≤
          MapBuilder.offsetOf m element) :
    d.appearance? n = some (MapBuilder.offsetOf m first) := by
  have hMember : first ∈ n.elements := List.mem_of_head? hHead
  rw [Document.appearance?, List.min?_eq_some_iff]
  constructor
  · have hThere := mem_of_lookup (hOffsets first hMember).1
    refine
      List.mem_map.mpr
        ⟨_, List.mem_filter.mpr ⟨hThere, ?_⟩, rfl⟩
    exact MapNode.represents_iff.mpr hMember
  · intro offset hOffset
    rcases List.mem_map.mp hOffset with
      ⟨⟨element, _⟩, hAppears, rfl⟩
    rcases List.mem_filter.mp hAppears with
      ⟨hAppears, hStands⟩
    have hElement := MapNode.represents_iff.mp hStands
    have hLeast :=
      hFirst element List.not_mem_nil _ _
        (hOffsets element hElement).1 hAppears
    exact Nat.le_trans (hOffsets element hElement).2 hLeast

/-
  The nodes of a map are in the order of the document: each of
  them stands for something that occurs there, and the smallest
  offsets at which it does so do not decrease from node to
  node.  This holds unless numbered statements below some
  argument are given more than once, or the first relation line
  with an element stands above the structure of the same
  argument in which the element is, too: what is recorded
  first then is not what comes first.
-/
theorem build_follows_document
    [YamlReader]
    (withoutTags : Bool)
    (input : String)
    (s : Selection)
    (settings : MapSettings)
    (hOnce :
      (reconstructedIn 0
        (Document.read input).document.blocks).Nodup)
    (hNone : (Document.read input).document.forestalled = []) :
    ∃ offsets : List Nat,
      (build
          (Model.build withoutTags
            (Document.read input).document).1
          s settings).nodes.map
            (Document.read input).document.appearance? =
        offsets.map some ∧
      offsets.Pairwise (· ≤ ·) := by
  have hOrder := Document.read_inSourceOrder input
  have hSteps := Document.read_stepsBelowArgument input
  generalize (Document.read input).document = d at *
  have hFirst := d.firstLeast_appearances hOrder hNone
  have hPlaces :=
    Model.build_places withoutTags ⟨hSteps, hOnce⟩
  have hLinked := (Model.build_coherent withoutTags d).linked
  have hIntact : (Model.build withoutTags d).1.IsIntact :=
    (Model.build_changes_intact withoutTags d []).1
  generalize (Model.build withoutTags d).1 = m at *
  have hNodes := MapBuilder.standFor_elements hIntact s
  rw [(build_spec hIntact s settings).2.1]
  rcases hNodes.heads_pairwise (fun _ => Nat.le_refl _)
      (MapBuilder.elements_pairwise hIntact s) with
    ⟨hHeads, hWithin⟩
  generalize (MapBuilder.elements m s).foldl
    (MapBuilder.addElement m) ⟨[], []⟩ = ns at *
  have hLookup : ∀ n ∈ ns.nodes, ∀ element ∈ n.elements,
      d.appearances.lookup element =
        some (MapBuilder.offsetOf m element) := by
    intro n hn element hElement
    have hAdded :=
      hNodes.mem_done hn (MapNode.represents_iff.mpr hElement)
    exact
      MapBuilder.lookup_eq_offsetOf hLinked hPlaces
        (MapBuilder.mem_elements_iff.mp hAdded).1
  have hAppears : ∀ n ∈ ns.nodes, ∀ first,
      n.elements.head? = some first →
        d.appearance? n = some (MapBuilder.offsetOf m first) := by
    intro n hn first hHead
    apply appearance?_eq hFirst hHead
    intro element hElement
    exact
      ⟨hLookup n hn element hElement,
        hWithin n hn first hHead element hElement⟩
  refine
    ⟨ns.nodes.map (fun n =>
      (n.elements.head?.map (MapBuilder.offsetOf m)).getD 0),
      ?_, ?_⟩
  · rw [List.map_map]
    apply List.map_congr_left
    intro n hn
    rcases hNodes.exists_head hn with ⟨first, hHead⟩
    simp [hAppears n hn first hHead, hHead]
  · rw [List.pairwise_map]
    apply hHeads.imp_of_mem
    intro x y hx hy hBefore
    rcases hNodes.exists_head hx with ⟨a, ha⟩
    rcases hNodes.exists_head hy with ⟨b, hb⟩
    simpa [ha, hb] using hBefore a b ha hb

section

open scoped Yaml

/-
  A statement on a relation line may come back in a structure
  further down.
-/
theorem build_follows_document_returning :
    let input :=
      "<A>\n  + [X]: x\n  - <B>\n\n<B>\n\n(1) [Y]: y\n"
        ++ "(2) [X]\n----\n(3) [C]: c"
    let d := (Document.read input).document
    (reconstructedIn 0 d.blocks).Nodup ∧
      d.forestalled = [] ∧
      ∃ offsets : List Nat,
        (build (Model.build false d).1
            ⟨["X", "Y", "C"], ["A", "B"]⟩ ⟨true, false⟩).nodes.map
              d.appearance? =
          offsets.map some ∧
        offsets.Pairwise (· ≤ ·) := by
  intro input d
  have hOnce : (reconstructedIn 0 d.blocks).Nodup := by
    decide +kernel
  have hNone : d.forestalled = [] := by decide +kernel
  exact
    ⟨hOnce, hNone,
      build_follows_document false input _ _ hOnce hNone⟩

end

section

open scoped Yaml

/- A statement that is forestalled comes too late. -/
example :
    let input :=
      "<A>\n  + [X]\n  + [Y]\n\n(1) [X]: x\n----\n(2) [C]: c"
    let d := (Document.read input).document
    d.forestalled = [.statement "X"] ∧
      (build (Model.build false d).1 ⟨["X", "Y"], []⟩
          ⟨true, false⟩).nodes.map d.appearance? =
        [some 12, some 4] := by
  decide +kernel

end

end ArgumentMap

end Dialectic
