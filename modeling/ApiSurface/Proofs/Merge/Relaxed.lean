import ApiSurface.Proofs.Merge.Seen

/-!
# Rounds under relaxed settings

Promotion goes by what relaxed settings see of a class (`promoteOrKeep_of_seen_eq`), and so does the
plan, which asks only which definitions are generic. Definitions that look the same to relaxed
settings therefore go through the same rounds under these as under strict settings, and end in
bodies that look the same (`mergeMixed_of_seen_eq`).
-/

namespace ApiSurface

open Conflict Finding Member

namespace Member

/-! ### Promotion -/

/-- Erasure and relaxed settings do not get in each other's way. -/
theorem erased_seen (settings : MergeSettings) (keep : Bool → Bool) (policy : UnboundPolicy)
    (outer : Params) (m : Member) :
    (m.seen settings keep).erased policy outer = (m.erased policy outer).seen settings keep := by
  rcases hbinary : settings.binaryCompatibility with _ | _ <;>
    simp [erased, erasure, seen, hbinary, substituteText] <;> rfl

theorem adopt_seen (settings : MergeSettings) (keep : Bool → Bool) (raw erased generic : Member) :
    (raw.seen settings keep).adopt (erased.seen settings keep) (generic.seen settings keep) =
      (raw.adopt erased generic).seen settings keep := by
  rcases hbinary : settings.binaryCompatibility with _ | _ <;> simp [adopt, seen, hbinary] <;> rfl

/-- A member and its terms look to relaxed settings as what they see of the member is promoted. -/
theorem promote?_seen (settings : MergeSettings) (keep : Bool → Bool)
    (pairs : List (Member × Member)) (m : Member) :
    promote? (pairs.map fun e => (e.1.seen settings keep, e.2.seen settings keep))
        (m.seen settings keep) = (promote? pairs m).map (·.seen settings keep) := by
  rw [promote?, promote?, List.find?_map, Option.map_map, Option.map_map]
  have hsame : (fun e : Member × Member => decide (e.1.key = m.key ∧ e.1.typeName = m.typeName)) =
      (fun e => decide (e.1.key = (m.seen settings keep).key ∧
        e.1.typeName = (m.seen settings keep).typeName)) ∘
        fun e => (e.1.seen settings keep, e.2.seen settings keep) := rfl
  rw [← hsame]
  exact congrArg (Option.map · _) (funext fun e => adopt_seen settings keep m e.1 e.2)

end Member

namespace ClassDef

variable {strict relaxed settings : MergeSettings} {policy : UnboundPolicy}
  {keeps keeps' : Kind → Bool → Bool} {s : Kind} {raw raw' generic generic' first first' : ClassDef}
  {cs cs' rest rest' : List ClassDef}

theorem withErasures_seen (hs : s ∈ Kind.own) :
    (generic.seen settings keeps).withErasures policy s =
      (generic.withErasures policy s).map fun e =>
        (e.1.seen settings (keeps s), e.2.seen settings (keeps s)) := by
  rw [withErasures, declared_seen hs, withErasures, List.map_map, List.map_map]
  exact List.map_congr_left fun g _ => Prod.ext (erased_seen settings (keeps s) policy _ g) rfl

theorem promotes_seen_iff :
    Promotes policy (raw.seen settings keeps) (generic.seen settings keeps) ↔
      Promotes policy raw generic := by
  rw [promotes_iff, promotes_iff]
  refine forall₂_congr fun s hs => ?_
  rw [declared_seen hs, declared_seen hs, List.length_map, List.length_map, List.forall_mem_map]
  refine and_congr Iff.rfl (forall₂_congr fun m _ => ?_)
  simp only [List.mem_map, exists_exists_and_eq_and, erased_seen]
  rfl

theorem liftMember_seen (hs : s ∈ Kind.own) (m : Member) :
    liftMember policy (raw.seen settings keeps) (generic.seen settings keeps) s
        (m.seen settings (keeps s)) =
      (liftMember policy raw generic s m).seen settings (keeps s) := by
  unfold liftMember
  by_cases h : Promotes policy raw generic
  · rw [if_pos h, if_pos (promotes_seen_iff.2 h), withErasures_seen hs, promote?_seen]
    rcases Member.promote? (generic.withErasures policy s) m with _ | m' <;> rfl
  · rw [if_neg h, if_neg (promotes_seen_iff.not.2 h)]

/-- Promotion goes by what relaxed settings see. -/
theorem seen_promoteOrKeep (settings : MergeSettings) (keeps : Kind → Bool → Bool)
    (policy : UnboundPolicy) (raw generic : ClassDef) :
    (promoteOrKeep policy raw generic).value.seen settings keeps =
      (promoteOrKeep policy (raw.seen settings keeps) (generic.seen settings keeps)).value := by
  have hdeclared : ∀ s ∈ Kind.own,
      ((promoteOrKeep policy raw generic).value.seen settings keeps).declared s =
        (promoteOrKeep policy (raw.seen settings keeps)
          (generic.seen settings keeps)).value.declared s := by
    intro s hs
    rw [declared_seen hs, declared_promoteOrKeep hs, declared_promoteOrKeep hs, declared_seen hs,
      List.map_map, List.map_map]
    exact List.map_congr_left fun m _ => (liftMember_seen hs m).symm
  obtain ⟨_, _, _, heq⟩ := exists_promoteOrKeep_eq policy raw generic
  obtain ⟨_, _, _, heq'⟩ := exists_promoteOrKeep_eq policy (raw.seen settings keeps)
    (generic.seen settings keeps)
  rw [heq, heq'] at hdeclared ⊢
  exact ClassDef.ext rfl rfl rfl (hdeclared .constructor (by decide))
    (hdeclared .method (by decide)) (hdeclared .field (by decide)) rfl rfl rfl rfl rfl

theorem promoteOrKeep_of_seen_eq (hraw : raw'.seen settings keeps' = raw.seen settings keeps)
    (hgeneric : generic'.seen settings keeps' = generic.seen settings keeps) :
    (promoteOrKeep policy raw' generic').value.seen settings keeps' =
      (promoteOrKeep policy raw generic).value.seen settings keeps := by
  rw [seen_promoteOrKeep, hraw, hgeneric, seen_promoteOrKeep]

/-! ### Rounds -/

/-- A plan for other classes in the place of those that it is for. -/
def MergePlan.map (f : ClassDef → ClassDef) : MergePlan → MergePlan
  | together => together
  | lifted raw generic => lifted (f raw) (f generic)
  | halves raw raws generic generics => halves (f raw) (raws.map f) (f generic) (generics.map f)

/-- The plan goes by which classes are generic. -/
theorem planOf_map {f : ClassDef → ClassDef} (hf : ∀ c, (f c).isGeneralized = c.isGeneralized)
    (cs : List ClassDef) : planOf (cs.map f) = (planOf cs).map f := by
  have hraws : (cs.map f).filter (!·.isGeneralized) = (cs.filter (!·.isGeneralized)).map f := by
    rw [List.filter_map]
    exact congrArg (List.map f) (List.filter_congr fun c _ => congrArg (!·) (hf c))
  have hgenerics : (cs.map f).filter (·.isGeneralized) = (cs.filter (·.isGeneralized)).map f := by
    rw [List.filter_map]
    exact congrArg (List.map f) (List.filter_congr fun c _ => hf c)
  unfold planOf
  rw [hraws, hgenerics]
  generalize cs.filter (fun c => !c.isGeneralized) = raws
  generalize cs.filter (·.isGeneralized) = generics
  rcases raws with _ | ⟨raw, _ | ⟨raw', raws⟩⟩ <;>
    rcases generics with _ | ⟨generic, _ | ⟨generic', generics⟩⟩ <;> rfl

theorem liftTo_seen (lifted c : ClassDef) : liftTo (lifted.seen settings keeps)
    (c.seen settings keeps) = (liftTo lifted c).seen settings keeps := by
  rw [liftTo, liftTo, isGeneralized_seen]
  split <;> rfl

theorem map_liftTo_of_seen_eq {lifted lifted' : ClassDef}
    (hlifted : lifted'.seen settings keeps' = lifted.seen settings keeps)
    (h : cs'.map (·.seen settings keeps') = cs.map (·.seen settings keeps)) :
    (cs'.map (liftTo lifted')).map (·.seen settings keeps') =
      (cs.map (liftTo lifted)).map (·.seen settings keeps) := by
  have hmap : ∀ (keeps : Kind → Bool → Bool) (lifted : ClassDef) (l : List ClassDef),
      (l.map (liftTo lifted)).map (·.seen settings keeps) =
        (l.map (·.seen settings keeps)).map (liftTo (lifted.seen settings keeps)) := by
    intro keeps lifted l
    rw [List.map_map, List.map_map]
    exact List.map_congr_left fun c _ => (liftTo_seen lifted c).symm
  rw [hmap, hlifted, h, hmap]

/-- Halves that look the same are merged to halves that do, without conflicts if there were none. -/
theorem mergeHalves_of_seen_eq (hrel : strict.Relaxes relaxed)
    (hraws : (raw' :: cs').map (·.seen relaxed keepsAll) = (raw :: cs).map (·.seen relaxed keeps))
    (hgenerics : (generic' :: rest').map (·.seen relaxed keepsAll) =
      (generic :: rest).map (·.seen relaxed keeps))
    (hlog : conflicts (mergeHalves strict policy raw cs generic rest).log = []) :
    conflicts (mergeHalves relaxed policy raw' cs' generic' rest').log = [] ∧
      (mergeHalves relaxed policy raw' cs' generic' rest').value.1.seen relaxed keepsAll =
        (mergeHalves strict policy raw cs generic rest).value.1.seen relaxed keeps ∧
      (mergeHalves relaxed policy raw' cs' generic' rest').value.2.seen relaxed keepsAll =
        (mergeHalves strict policy raw cs generic rest).value.2.seen relaxed keeps := by
  rw [conflicts_mergeHalves, conflicts_mergeBodies, conflicts_mergeBodies,
    List.append_eq_nil_iff] at hlog ⊢
  obtain ⟨hrawLog, hraw⟩ := mergeBody_of_seen_eq hrel hraws hlog.1
  obtain ⟨hgenericLog, hgeneric⟩ := mergeBody_of_seen_eq hrel hgenerics hlog.2
  refine ⟨⟨hrawLog, hgenericLog⟩, ?_, ?_⟩
  · rw [fst_mergeHalves, fst_mergeHalves, eq_of_seen_eq (fun _ _ => isGeneralized_seen) hgeneric]
    split
    next => exact promoteOrKeep_of_seen_eq hraw hgeneric
    next => exact hraw
  · rw [snd_mergeHalves, snd_mergeHalves]
    exact hgeneric

/-- Definitions that look the same to relaxed settings are merged to bodies that do, without
conflicts if there were none under strict ones. -/
theorem mergeMixed_of_seen_eq (hrel : strict.Relaxes relaxed)
    (h : (first' :: rest').map (·.seen relaxed keepsAll) =
      (first :: rest).map (·.seen relaxed keeps))
    (hlog : conflicts (mergeMixed strict policy first rest).log = []) :
    conflicts (mergeMixed relaxed policy first' rest').log = [] ∧
      (mergeMixed relaxed policy first' rest').value.seen relaxed keepsAll =
        (mergeMixed strict policy first rest).value.seen relaxed keeps := by
  have hplans : (planOf (first' :: rest')).map (·.seen relaxed keepsAll) =
      (planOf (first :: rest)).map (·.seen relaxed keeps) := by
    rw [← planOf_map fun _ => isGeneralized_seen, h, planOf_map fun _ => isGeneralized_seen]
  -- the plans are of one form, since what relaxed settings see of them is
  rcases hplan : planOf (first :: rest) with _ | ⟨raw, generic⟩ | ⟨raw, raws, generic, generics⟩ <;>
    rcases hplan' : planOf (first' :: rest') with
      _ | ⟨raw', generic'⟩ | ⟨raw', raws', generic', generics'⟩ <;>
    simp only [hplan, hplan', MergePlan.map, reduceCtorEq, MergePlan.lifted.injEq,
      MergePlan.halves.injEq] at hplans
  case together.together =>
    simp only [mergeMixed, hplan, hplan', conflicts_mergeBodies, value_mergeBodies] at hlog ⊢
    exact mergeBody_of_seen_eq hrel h hlog
  case lifted.lifted =>
    have hlifted := @promoteOrKeep_of_seen_eq relaxed policy _ _ _ _ _ _ hplans.1 hplans.2
    have hround := map_liftTo_of_seen_eq hlifted h
    simp only [mergeMixed, hplan, hplan', Logged.log_bind, Logged.value_bind, conflicts_append,
      conflicts_promoteOrKeep, List.nil_append, conflicts_mergeBodies, value_mergeBodies] at hlog ⊢
    exact mergeBody_of_seen_eq hrel hround hlog
  case halves.halves =>
    obtain ⟨hraw, hraws, hgeneric, hgenerics⟩ := hplans
    simp only [mergeMixed, hplan, hplan', Logged.log_bind, Logged.value_bind, conflicts_append,
      conflicts_mergeBodies, value_mergeBodies, List.append_eq_nil_iff] at hlog ⊢
    obtain ⟨hhalvesLog, hfst, hsnd⟩ := mergeHalves_of_seen_eq hrel
      (List.cons_eq_cons.2 ⟨hraw, hraws⟩) (List.cons_eq_cons.2 ⟨hgeneric, hgenerics⟩) hlog.1
    have hlast : ∀ {r g r' g' : ClassDef}, r'.seen relaxed keepsAll = r.seen relaxed keeps →
        g'.seen relaxed keepsAll = g.seen relaxed keeps →
        [r', g'].map (·.seen relaxed keepsAll) = [r, g].map (·.seen relaxed keeps) :=
      fun hr hg => List.cons_eq_cons.2 ⟨hr, congrArg ([·]) hg⟩
    obtain ⟨hroundLog, hround⟩ := mergeBody_of_seen_eq hrel (hlast hfst hsnd) hlog.2
    exact ⟨⟨hhalvesLog, hroundLog⟩, hround⟩

end ClassDef

end ApiSurface
