import ApiSurface.Proofs.Line.Spelled
import ApiSurface.Proofs.Merge.Referenced
import ApiSurface.Proofs.Merge.Writable

/-!
# Merged snapshots written and read back

The text of a merged snapshot is read as that snapshot, if the participants were read from texts and
their classes are spelled properly (`parseSnapshot_text_merge`). The definitions of a name are
writable then (`writable_definitions`), and so is what they become. The references to nested classes
that come on top are writable because they are made of parts of names
(`ClassDef.Writable.innerReference`).
-/

namespace ApiSurface

open Text Line Member

/-! ### References -/

theorem IsName.of_subset {t part : Text} (h : IsName t) (hne : part ≠ []) (hsub : part ⊆ t) :
    IsName part := ⟨hne, fun c hc => h.2 c (hsub hc)⟩

theorem IsName.isLine {t : Text} (h : IsName t) : IsLine t := by
  constructor
  · intro hmem
    exact absurd (h.2 _ hmem).1 (by decide)
  · intro hmem
    exact absurd (h.2 _ hmem).1 (by decide)

/-- A reference to a nested type of which both parts of the name are names is writable. -/
theorem Member.writable_inner {outer simple : Text} {mods : Modifiers} (houter : IsName outer)
    (hsimple : IsName simple) (hdelimiter : '$' ∉ simple)
    (hvalid : Valid { kind := .inner, declaring := outer, name := simple, modifiers := mods }) :
    Writable { kind := .inner, declaring := outer, name := simple, modifiers := mods } := by
  have honeLine : OneLine
      { kind := .inner, declaring := outer, name := simple, modifiers := mods } :=
    ⟨houter.isLine, hsimple.isLine, isLine_nil, isLine_nil, isLine_nil, by simp, by simp⟩
  refine ⟨?_, honeLine, fun a ha => absurd ha (SortedSet.not_mem_empty a)⟩
  exact {
    valid := hvalid
    name := hsimple
    keyword := by simp
    outer := by simp [Kind.isTypeRef]
    declaring := fun _ => ⟨houter, hdelimiter⟩
    typeName := by simp
    noTypeName := fun _ => rfl
    generics := by simp
    typeArgs := by simp
    noTypeParams := fun _ => rfl
    args := by simp [Kind.isCallable]
    noArgs := fun _ => rfl
    throws := by simp [Kind.isCallable]
    noThrows := fun _ => rfl
    constant := fun _ => rfl
    direct := fun _ => rfl
    oneLine := honeLine.line }

namespace ClassDef

variable {c : ClassDef} {name outer : Text}

theorem Writable.placedByName (h : c.Writable name) : c.PlacedByName := by
  refine ⟨?_, fun cut hcut => (h.simpleName cut (h.name_eq ▸ hcut)).2⟩
  have hheader : c.header.kind = .header := h.placed.header
  have houter := h.header.wellFormed.outer (by rw [hheader]; rfl)
  rwa [hheader] at houter

/-- The name of a nested class ends in a simple name. -/
theorem Writable.simpleName_ne_nil (h : c.Writable name) (houter : c.enclosing? = some outer) :
    c.simpleName ≠ [] := by
  have hname := name_of_placed h.placedByName houter
  have hcut : cutLast? (· == '$') c.name = some (outer, c.simpleName) := by
    rw [hname]
    refine cutLast?_append (by decide) fun x hx => ?_
    exact (Bool.or_eq_false_iff.1 (Snapshot.not_separator_of_mem_simpleNameOf hx)).2
  exact (h.simpleName _ (h.name_eq ▸ hcut)).1

/-- A reference to a nested class is made of parts of its name. -/
theorem Writable.innerReference (h : c.Writable name) (houter : c.enclosing? = some outer) :
    (Snapshot.innerReference outer c).Writable := by
  have hname : c.name = outer ++ '$' :: c.simpleName := name_of_placed h.placedByName houter
  have hnameOf : IsName c.name := h.header.wellFormed.name
  have houterName : IsName outer := by
    refine hnameOf.of_subset ?_ fun x hx => ?_
    · rintro rfl
      unfold enclosing? at houter
      split at houter
      next => cases houter
      next hne => exact hne (Option.some.inj houter)
    · rw [hname]
      exact List.mem_append_left _ hx
  have hsimpleName : IsName c.simpleName := by
    refine hnameOf.of_subset (h.simpleName_ne_nil houter) fun x hx => ?_
    rw [hname]
    exact List.mem_append_right _ (List.mem_cons_of_mem _ hx)
  have hdelimiter : '$' ∉ c.simpleName := fun hmem => by
    have hsep := Snapshot.not_separator_of_mem_simpleNameOf hmem
    exact absurd hsep (by decide)
  have hvalid := valid_innerReference outer c
  obtain ⟨-, heq⟩ := setModifiers?_eq_ok_iff.1 (setModifiers?_innerReference outer c)
  rw [heq] at hvalid ⊢
  exact writable_inner houterName hsimpleName hdelimiter hvalid

/-- A class that gets writable references to classes nested in it stays writable. -/
theorem Writable.withReferences (h : c.Writable name) {refs : List Member}
    (hrefs : ∀ m ∈ refs, m.Writable ∧ m.kind = .inner ∧ m.declaring = name) :
    Writable name { c with nested := c.nested ++ refs } := by
  obtain ⟨hheader, hkinds, hown, hinherited⟩ := h.placed
  refine ⟨h.name_eq, ⟨hheader, fun k m hm => ?_, fun m hm => ?_, hinherited⟩, h.header, ?_,
    h.hidden, h.simpleName⟩
  · cases k with
    | inner =>
      rcases List.mem_append.1 hm with hm | hm
      · exact hkinds .inner m hm
      · exact (hrefs m hm).2.1
    | header | superclass | interface | constructor | method | field | permitted =>
      exact hkinds _ m hm
  · have hmem : m ∈ (c.ownMembers ++ c.nested) ++ refs := by
      rw [List.append_assoc]
      exact hm
    rcases List.mem_append.1 hmem with hm | hm
    · exact hown m hm
    · exact (hrefs m hm).2.2.trans h.name_eq.symm
  · obtain ⟨hsuper, hinterfaces, hownMembers, hnested, hrest⟩ := allMembers_iff.1 h.members
    refine allMembers_iff.2 ⟨hsuper, hinterfaces, hownMembers, fun m hm => ?_, hrest⟩
    rcases List.mem_append.1 hm with hm | hm
    · exact hnested m hm
    · exact (hrefs m hm).1

/-- A class that is well-formed and spelled properly is writable. -/
theorem Spelled.writable (hc : c.Spelled) (h : c.WellFormed) : c.Writable c.name := by
  have hmember : ∀ m ∈ c.written, m.Writable := fun m hm =>
    ⟨h.members m hm, (hc.members m hm).oneLine, h.annots m hm⟩
  exact ⟨rfl, ⟨h.header, h.kinds, h.own, h.inherited⟩,
    hmember _ (mem_written_iff.2 (.inl rfl)), fun m hm => hmember m (mem_written_iff.2 (.inr hm)),
    ⟨h.hiddenFields, h.hiddenClasses⟩, hc.simpleName⟩

end ClassDef

open ClassDef

/-! ### Snapshots -/

variable {settings : Settings} {participants : List Snapshot} {texts : List Text}

/-- The definitions of a name are writable where participants were read from texts and are spelled
properly. -/
theorem writable_definitions (hread : texts.mapM parseSnapshot = .ok participants)
    (hspelled : ∀ p ∈ participants, ∀ c ∈ p.values, c.Spelled) (name : Text) :
    ∀ c ∈ definitions participants name, c.Writable name := by
  intro c hc
  obtain ⟨p, hp, hget⟩ := List.mem_filterMap.1 hc
  obtain ⟨text, -, htext⟩ := exists_of_mem_mapM hread p hp
  obtain ⟨hnamed, hlines⟩ := of_parseSnapshot htext
  have hvalue : c ∈ p.values := Snapshot.mem_values_iff.2 ⟨name, hget⟩
  obtain ⟨lines, hparsed⟩ := hlines c hvalue
  have hc := hspelled p hp c hvalue
  rw [← Snapshot.name_of_get? hnamed hget]
  exact hc.writable (wellFormed_of_parseClass hparsed hc)

/-- Every class of a merged snapshot is writable, and is listed under its name. -/
theorem writable_of_merge
    (h : ∀ name, ∀ c ∈ definitions participants name, c.Writable name) {name : Text} {c : ClassDef}
    (hget : (merge settings participants).snapshot.get? name = some c) : c.Writable name := by
  have hunreconciled : ∀ {name : Text} {c : ClassDef},
      (Merge.unreconciled settings participants).get? name = some c → c.Writable name := by
    intro name c hget
    obtain ⟨key, hmerged⟩ := Merge.exists_of_get?_unreconciled hget
    have hc := writable_of_mergeClass (h key) hmerged
    have hname := Snapshot.name_of_get? (Merge.named_unreconciled settings participants) hget
    rwa [← hc.name_eq, hname] at hc
  obtain ⟨merged, refs, hmerged, rfl, rfl⟩ := Merge.exists_of_get?_snapshot hget
  refine (hunreconciled hmerged).withReferences fun m hm => ?_
  obtain ⟨d, hd, rfl⟩ := List.mem_map.1 hm
  obtain ⟨hvalue, hfate⟩ := List.mem_filter.1 hd
  obtain ⟨key, hd⟩ := Snapshot.mem_values_iff.1 hvalue
  have hkey := key_withModifiers { kind := .inner, declaring := name, name := d.simpleName }
    (d.header.modifiers.inter Kind.inner.allowed)
  exact ⟨(hunreconciled hd).innerReference
      (Snapshot.enclosing_of_fate_eq_unlisted (of_decide_eq_true hfate)),
    congrArg MemberKey.kind hkey, congrArg MemberKey.declaring hkey⟩

/-- The text of the snapshot that a merge returns is read as that snapshot, whatever the settings,
if the participants were read from texts and are spelled properly. -/
theorem parseSnapshot_text_merge (settings : Settings)
    (hread : texts.mapM parseSnapshot = .ok participants)
    (hspelled : ∀ p ∈ participants, ∀ c ∈ p.values, c.Spelled) :
    parseSnapshot (merge settings participants).snapshot.text =
      .ok (merge settings participants).snapshot := by
  have hwritable : ∀ {name : Text} {c : ClassDef},
      (merge settings participants).snapshot.get? name = some c → c.Writable name :=
    writable_of_merge (writable_definitions hread hspelled)
  have hnamed : (merge settings participants).snapshot.Named := fun e he =>
    (hwritable (SortedMap.get?_eq_some_iff.2 he)).name_eq.symm
  have hclasses : ∀ c ∈ (merge settings participants).snapshot.values, c.WellFormed := by
    intro c hc
    obtain ⟨name, hget⟩ := Snapshot.mem_values_iff.1 hc
    exact (hwritable hget).wellFormed
  rw [Snapshot.text, parseSnapshot_intercalate hclasses, Snapshot.ofClasses_values hnamed]

/-- A method `get` of a class `a.Box` that returns what it takes. -/
def boxMethod (typeName : String) : Member where
  kind := .method
  modifiers := .ofList [.pub]
  declaring := "a.Box".toList
  name := "get".toList
  typeName := typeName.toList
  args := typeName.toList
  throws := "a.E".toList

/-- A class before and after it became generic. At first it has an inherited method, and there is a
class nested in it that it does not list. -/
def boxes : List Snapshot :=
  [.ofClasses
    [{ header := { kind := .header, modifiers := .ofList [.pub], name := "a.Box".toList
                   annots := .ofList [{ name := "a.Marker".toList }] }
       methods := [boxMethod "java.lang.Object"]
       inherited := [{ kind := .method, declaring := "a.Base".toList, name := "hash".toList
                       typeName := "int".toList }]
       hiddenFields := .ofList ["p".toList, "q".toList] },
     .ofName "a.Box$In".toList],
   .ofClasses
    [{ header := { kind := .header, modifiers := .ofList [.pub], name := "a.Box".toList
                   typeParams := some "<%0 extends java.lang.Object>".toList }
       methods := [boxMethod "\x7ba.Box%0\x7d"]
       hiddenFields := .ofList ["q".toList, "r".toList] }]]

/-- The text of the merged snapshot, with a reference to the nested class. -/
def mergedBoxText : Text := ['\n'].intercalate
  ["class public <%0 extends java.lang.Object> a.Box".toList,
    "annotation:a.Marker".toList,
    "method public \x7ba.Box%0\x7d a.Box.get(\x7ba.Box%0\x7d) throws a.E".toList,
    "inner a.Box$In".toList,
    "method int a.Base.hash()".toList,
    "hiddenfields q".toList,
    [],
    "class a.Box$In".toList,
    []]

theorem parseSnapshot_mergedBoxText :
    (boxes.map Snapshot.text).mapM parseSnapshot = .ok boxes ∧
      (∀ p ∈ boxes, ∀ c ∈ p.values, c.Spelled) ∧
      (merge {} boxes).snapshot.text = mergedBoxText ∧
      parseSnapshot mergedBoxText = .ok (merge {} boxes).snapshot := by
  have hread : (boxes.map Snapshot.text).mapM parseSnapshot = .ok boxes := by decide +kernel
  have hspelled : ∀ p ∈ boxes, ∀ c ∈ p.values, c.Spelled := by decide +kernel
  have htext : (merge {} boxes).snapshot.text = mergedBoxText := by decide +kernel
  exact ⟨hread, hspelled, htext, htext ▸ parseSnapshot_text_merge {} hread hspelled⟩

end ApiSurface
