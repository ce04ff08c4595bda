import Dialectic.Model.Basic
import Dialectic.Selection.Basic

/-
  This file defines how the elements of a model are selected:
  filters choose the first ones, and modes and flags in the
  data of the elements narrow the choice down.

  Key definitions include:
    * `Selection.preselect`
    * `StatementMode`
    * `ArgumentMode`
    * `Selection.narrowStatements`
    * `Selection.narrowArguments`
-/

namespace Dialectic

namespace Selection

------------------------------------------------------------
-- Preselection
------------------------------------------------------------

namespace Filters

/- The tags of an element pass the filters. -/
def allowTags (f : Filters) (tags : List String) : Bool :=
  match f.selectedTags with
  | none => true
  | some selected =>
      if tags.isEmpty then
        f.selectElementsWithoutTag
      else
        tags.any selected.contains

/- The section of an element passes the filters. -/
def allowSection
    (f : Filters)
    (m : Model)
    (sectionId : Option Nat) : Bool :=
  match f.selectedSections, sectionId with
  | none, _ => true
  | some _, none => f.selectElementsWithoutSection
  | some selected, some id =>
      (m.sectionPath id).any
        (fun s => selected.contains s.title)

/- A class passes the filters. -/
def allowClass
    (f : Filters)
    (m : Model)
    (c : EquivalenceClass) : Bool :=
  (f.includeStatements.contains c.title
      || (f.allowTags c.tags && f.allowSection m c.sectionId))
    && !f.excludeStatements.contains c.title

/- An argument passes the filters. -/
def allowArgument
    (f : Filters)
    (m : Model)
    (a : Argument) : Bool :=
  f.allowTags a.tags && f.allowSection m a.sectionId
    && !f.excludeArguments.contains a.title

end Filters

/- Select the elements that pass the filters. -/
def preselect (m : Model) (f : Filters) : Selection :=
  ofTitles
    ((m.classes.filter (f.allowClass m)).map
      EquivalenceClass.title)
    ((m.arguments.filter (f.allowArgument m)).map
      Argument.title)

------------------------------------------------------------
-- Modes
------------------------------------------------------------

/- Which classes a map shows. -/
inductive StatementMode where
| all
| withTitle
| top
| withRelations
| notUsedInArgument
deriving DecidableEq, Repr

namespace StatementMode

/- All modes. -/
def modes : List StatementMode :=
  [all, withTitle, top, withRelations, notUsedInArgument]

/- The name of a mode. -/
def name : StatementMode → String
| all => "all"
| withTitle => "with-title"
| top => "top"
| withRelations => "with-relations"
| notUsedInArgument => "not-used-in-argument"

/- A mode lets a class pass. -/
def allows : StatementMode → EquivalenceClass → Bool
| all, _ => true
| withTitle, c => !c.isAutoTitled
| top, c => c.isUsedAsTopLevelStatement
| withRelations, c => !c.relations.isEmpty
| notUsedInArgument, c => !c.isUsedInArgument

end StatementMode

/- Which arguments a map shows. -/
inductive ArgumentMode where
| all
| withRelations
deriving DecidableEq, Repr

namespace ArgumentMode

/- All modes. -/
def modes : List ArgumentMode := [all, withRelations]

/- The name of a mode. -/
def name : ArgumentMode → String
| all => "all"
| withRelations => "with-relations"

/- A mode lets an argument pass. -/
def allows : ArgumentMode → Argument → Bool
| all, _ => true
| withRelations, a => !a.relations.isEmpty

end ArgumentMode

/-
  How classes are chosen, and whether those without relation
  to another selected element are left out.
-/
structure StatementSettings where
  mode : StatementMode
  excludeDisconnected : Bool
deriving DecidableEq, Repr

/-
  How arguments are chosen, and whether those without relation
  to another selected element are left out.
-/
structure ArgumentSettings where
  mode : ArgumentMode
  excludeDisconnected : Bool
deriving DecidableEq, Repr

------------------------------------------------------------
-- Narrowing
------------------------------------------------------------

/-
  What the data of an element says about its place in the map.
-/
def inMapFlag? (f : Filters) (data : Record) : Option Bool :=
  if f.ignoreIsInMap then none
  else Record.flag? data "isInMap"

/- A relation connects an element to a selected one. -/
def isConnected
    (m : Model)
    (s : Selection)
    (element : Element) : Bool :=
  ((m.relationsOf element).filterMap
    (fun r => r.otherEnd? element)).any s.contains

/- A class stays or comes into the selection. -/
def keepsClass
    (s : Selection)
    (settings : StatementSettings)
    (f : Filters)
    (c : EquivalenceClass) : Bool :=
  if f.excludeStatements.contains c.title then
    false
  else if f.includeStatements.contains c.title then
    true
  else
    match inMapFlag? f c.data with
    | some flag => flag
    | none =>
        s.statements.contains c.title && settings.mode.allows c

/- Choose the classes of a selection. -/
def chooseStatements
    (m : Model)
    (s : Selection)
    (settings : StatementSettings)
    (f : Filters) : Selection :=
  let chosen :=
    { s with
      statements :=
        Sequence.sortedTexts
          ((m.classes.filter (s.keepsClass settings f)).map
            EquivalenceClass.title) }
  if settings.excludeDisconnected then
    { chosen with
      statements :=
        chosen.statements.filter
          (fun t => isConnected m chosen (.statement t)) }
  else
    chosen

/- Mark the selected classes and their statements. -/
def markStatements (m : Model) (s : Selection) : Model :=
  let m :=
    m.mapClasses (fun c =>
      { c with isInMap := s.statements.contains c.title })
  { m with
    statements :=
      m.statements.map (fun o =>
        { o with isInMap := s.statements.contains o.title }) }

/- Choose and mark the classes of a selection. -/
def narrowStatements
    (m : Model)
    (s : Selection)
    (settings : StatementSettings)
    (f : Filters) : Model × Selection :=
  let chosen := chooseStatements m s settings f
  (markStatements m chosen, chosen)

/- An argument stays or comes into the selection. -/
def keepsArgument
    (s : Selection)
    (settings : ArgumentSettings)
    (f : Filters)
    (a : Argument) : Bool :=
  if f.excludeArguments.contains a.title then
    false
  else
    match inMapFlag? f a.data with
    | some flag => flag
    | none =>
        s.arguments.contains a.title && settings.mode.allows a

/- Choose the arguments of a selection. -/
def chooseArguments
    (m : Model)
    (s : Selection)
    (settings : ArgumentSettings)
    (f : Filters) : Selection :=
  let chosen :=
    { s with
      arguments :=
        Sequence.sortedTexts
          ((m.arguments.filter (s.keepsArgument settings f)).map
            Argument.title) }
  if settings.excludeDisconnected then
    { chosen with
      arguments :=
        chosen.arguments.filter
          (fun t => isConnected m chosen (.argument t)) }
  else
    chosen

/- Mark the selected arguments. -/
def markArguments (m : Model) (s : Selection) : Model :=
  m.mapArguments (fun a =>
    { a with isInMap := s.arguments.contains a.title })

/- Choose and mark the arguments of a selection. -/
def narrowArguments
    (m : Model)
    (s : Selection)
    (settings : ArgumentSettings)
    (f : Filters) : Model × Selection :=
  let chosen := chooseArguments m s settings f
  (markArguments m chosen, chosen)

end Selection

end Dialectic
