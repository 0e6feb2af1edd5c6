import Forwarder.Visit
import Mathlib.Data.List.Basic
import Mathlib.Data.List.Induction
import Mathlib.Data.List.Nodup

/-!
# Call sites grouped by target

`CallSite.regroup` puts the call sites of confirmed targets one by one into the groups of their
targets. What comes out are these call sites, grouped by target (`CallSite.regroup_eq`, `groupedBy`).
Grouping is stable (`Regroups`, `regroups_groupedBy`): nothing gets lost or doubled, the elements of a
key stand together in their order, and the keys come in the order in which they first occur. One key
does not disturb the elements of another one (`filter_groupedBy`).
-/

namespace Forwarder

/-- A list grouped by a key: keys in the order in which they first occur, elements of one key in their
order. -/
def groupedBy {α κ : Type} [DecidableEq κ] (f : α → κ) (l : List α) : List α :=
  (l.map f).eraseDups.flatMap fun key => l.filter fun a => f a = key

/-- Grouping loses and doubles no element. -/
theorem groupedBy_perm {α κ : Type} [DecidableEq κ] (f : α → κ) :
    ∀ l : List α, (groupedBy f l).Perm l
  | [] => .nil
  | a :: l => by
    -- the induction is on the length: the elements of the first key go first, the others follow
    have hothers := groupedBy_perm f (l.filter fun b => !f b == f a)
    have hkeys : (l.map f).filter (fun k => !k == f a) =
        (l.filter fun b => !f b == f a).map f := by
      rw [List.filter_map]
      rfl
    have hgroups : ∀ k ∈ ((l.filter fun b => !f b == f a).map f).eraseDups,
        ((a :: l).filter fun b => f b = k) =
          (l.filter fun b => !f b == f a).filter fun b => f b = k := by
      intro k hk
      obtain ⟨b, hb, rfl⟩ := List.mem_map.1 (List.mem_eraseDups.1 hk)
      have hne : f b ≠ f a := by simpa using (List.mem_filter.1 hb).2
      rw [List.filter_filter, List.filter_cons_of_neg (by simpa using hne.symm)]
      refine List.filter_congr fun c _ => ?_
      by_cases hc : f c = f b
      · simp [hc, hne]
      · simp [hc]
    have hrest : (l.filter fun b => !f b == f a) =
        (a :: l).filter fun b => !decide (f b = f a) := by
      rw [List.filter_cons_of_neg (by simp)]
      exact List.filter_congr fun b _ => by by_cases hb : f b = f a <;> simp [hb]
    rw [groupedBy, List.map_cons, List.eraseDups_cons, List.flatMap_cons, hkeys,
      List.flatMap_congr hgroups]
    refine (hothers.append_left _).trans ?_
    rw [hrest]
    exact List.filter_append_perm (fun b => decide (f b = f a)) (a :: l)
termination_by l => l.length
decreasing_by exact Nat.lt_succ_of_le (List.length_filter_le ..)

/-- What passes a test is listed in the order in which it first occurs, whether the test comes before
or after. -/
theorem eraseDups_filter {α : Type} [DecidableEq α] (p : α → Bool) :
    ∀ l : List α, (l.filter p).eraseDups = l.eraseDups.filter p
  | [] => rfl
  | a :: l => by
    have hrest := eraseDups_filter p (l.filter fun b => !b == a)
    rw [List.filter_filter] at hrest
    rw [List.eraseDups_cons, List.filter_cons, List.filter_cons, ← hrest]
    by_cases ha : p a
    · rw [if_pos ha, if_pos ha, List.eraseDups_cons, List.filter_filter]
      simp only [Bool.and_comm]
    · rw [if_neg ha, if_neg ha]
      refine congrArg List.eraseDups (List.filter_congr fun b _ => ?_)
      by_cases hb : b = a
      · simp [hb, ha]
      · simp [hb]
termination_by l => l.length
decreasing_by exact Nat.lt_succ_of_le (List.length_filter_le ..)

section Grouping

variable {α β κ : Type} [DecidableEq κ] {f : α → κ} {kept reported : List α}

/-- A new element comes last among those without doubles; one that is there makes no difference. -/
theorem eraseDups_concat (l : List κ) (a : κ) :
    (l ++ [a]).eraseDups = if a ∈ l then l.eraseDups else l.eraseDups ++ [a] := by
  rw [List.eraseDups_append]
  by_cases ha : a ∈ l
  · rw [if_pos ha]
    simp [List.removeAll, ha]
  · have hnew : [a].removeAll l = [a] := by simp [List.removeAll, ha]
    rw [if_neg ha, hnew]
    rfl

/-- Without its repetitions a list has no element twice. -/
theorem nodup_eraseDups (l : List κ) : l.eraseDups.Nodup := by
  induction l using List.reverseRecOn with
  | nil => exact .nil
  | append_singleton l a ih =>
    rw [eraseDups_concat]
    split
    · exact ih
    · rename_i ha
      rw [← List.concat_eq_append]
      exact ih.concat fun h => ha (List.mem_eraseDups.1 h)

/-- Groups that are not empty, one for each key, have the keys in their order. -/
theorem eraseDups_map_flatMap {keys : List κ} {group : κ → List α} (hkeys : keys.Nodup)
    (hgroup : ∀ key ∈ keys, group key ≠ [] ∧ ∀ a ∈ group key, f a = key) :
    ((keys.flatMap group).map f).eraseDups = keys := by
  induction keys with
  | nil => rfl
  | cons key keys ih =>
    obtain ⟨hkey, hkeys⟩ := List.nodup_cons.1 hkeys
    obtain ⟨⟨hne, hall⟩, hgroup⟩ := List.forall_mem_cons.1 hgroup
    obtain ⟨a, as, has⟩ := List.exists_cons_of_ne_nil hne
    rw [has] at hall
    obtain ⟨ha, hall⟩ := List.forall_mem_cons.1 hall
    have hsame : (as.map f).filter (fun k => !k == key) = [] := by simpa using hall
    have hothers : ((keys.flatMap group).map f).filter (fun k => !k == key) =
        (keys.flatMap group).map f := by
      rw [List.filter_eq_self]
      intro k hk
      obtain ⟨b, hb, rfl⟩ := List.mem_map.1 hk
      obtain ⟨k, hk, hb⟩ := List.mem_flatMap.1 hb
      rw [(hgroup k hk).2 b hb]
      simpa using fun h : k = key => hkey (h ▸ hk)
    rw [List.flatMap_cons, has, List.cons_append, List.map_cons, List.map_append,
      List.eraseDups_cons, ha, List.filter_append, hsame, hothers, List.nil_append, ih hkeys hgroup]

/-- Grouping elements by what is made of them is grouping that. -/
theorem map_groupedBy (f : α → κ) (g : β → α) (l : List β) :
    (groupedBy (fun b => f (g b)) l).map g = groupedBy f (l.map g) := by
  rw [groupedBy, groupedBy, List.map_flatMap, List.map_map]
  refine List.flatMap_congr fun key _ => ?_
  rw [List.filter_map]
  rfl

/-- The groups of some keys are made of the elements with these keys. -/
theorem filter_groups (p : κ → Bool) (l : List α) (keys : List κ) :
    (keys.flatMap fun key => l.filter fun a => f a = key).filter (fun a => p (f a)) =
      (keys.filter p).flatMap fun key =>
        (l.filter fun a => p (f a)).filter fun a => f a = key := by
  induction keys with
  | nil => rfl
  | cons key keys ih =>
    rw [List.flatMap_cons, List.filter_append, ih, List.filter_cons, List.filter_filter]
    by_cases hp : p key
    · rw [if_pos hp, List.flatMap_cons, List.filter_filter]
      simp only [Bool.and_comm]
    · have hnone : (l.filter fun a => p (f a) && f a = key) = [] := by
        rw [List.filter_eq_nil_iff]
        intro a _ ha
        obtain ⟨ha, hkey⟩ : p (f a) = true ∧ f a = key := by simpa using ha
        exact hp (hkey ▸ ha)
      rw [if_neg hp, hnone, List.nil_append]

/-- To group and to keep the elements of some keys may be done in either order. -/
theorem filter_groupedBy (f : α → κ) (p : κ → Bool) (l : List α) :
    (groupedBy f l).filter (fun a => p (f a)) = groupedBy f (l.filter fun a => p (f a)) := by
  have hkeys : ((l.filter fun a => p (f a)).map f).eraseDups = (l.map f).eraseDups.filter p := by
    rw [← eraseDups_filter, List.filter_map]
    rfl
  rw [groupedBy, groupedBy, hkeys, filter_groups]

/-- A list has the elements of another one, those of one key together in their order, and the keys in
the order in which they first occur there. -/
structure Regroups (f : α → κ) (kept reported : List α) : Prop where
  perm : reported.Perm kept
  contiguous : ∀ key, ∃ before behind,
    reported = before ++ (kept.filter fun a => f a = key) ++ behind ∧
      ∀ a ∈ before ++ behind, f a ≠ key
  first_seen : (reported.map f).eraseDups = (kept.map f).eraseDups

/-- The elements of a key keep their order. -/
theorem Regroups.filter_eq (h : Regroups f kept reported) (key : κ) :
    reported.filter (fun a => f a = key) = kept.filter fun a => f a = key := by
  obtain ⟨before, behind, rfl, hothers⟩ := h.contiguous key
  obtain ⟨hbefore, hbehind⟩ := List.forall_mem_append.1 hothers
  have hnone : ∀ l : List α, (∀ a ∈ l, f a ≠ key) → l.filter (fun a => f a = key) = [] :=
    fun l hl => List.filter_eq_nil_iff.2 fun a ha => by simpa using hl a ha
  rw [List.filter_append, List.filter_append, hnone before hbefore, hnone behind hbehind,
    List.filter_filter, List.nil_append, List.append_nil]
  simp only [Bool.and_self]

/-- **Grouping is stable.** -/
theorem regroups_groupedBy (f : α → κ) (l : List α) : Regroups f l (groupedBy f l) where
  perm := groupedBy_perm f l
  contiguous := by
    intro key
    by_cases hkey : key ∈ (l.map f).eraseDups
    · obtain ⟨before, behind, hsplit⟩ := List.append_of_mem hkey
      have hnodup := nodup_eraseDups (l.map f)
      rw [hsplit, List.nodup_middle, List.nodup_cons] at hnodup
      refine ⟨before.flatMap fun key => l.filter fun a => f a = key,
        behind.flatMap fun key => l.filter fun a => f a = key, ?_, ?_⟩
      · rw [groupedBy, hsplit, List.flatMap_append, List.flatMap_cons, List.append_assoc]
      · intro a ha
        rw [← List.flatMap_append] at ha
        obtain ⟨other, hother, ha⟩ := List.mem_flatMap.1 ha
        have hfa : f a = other := by simpa using (List.mem_filter.1 ha).2
        rintro rfl
        exact hnodup.1 (hfa ▸ hother)
    · -- no element has the key
      have hnone : ∀ a ∈ l, f a ≠ key := by
        rintro a ha rfl
        exact hkey (List.mem_eraseDups.2 (List.mem_map_of_mem ha))
      refine ⟨groupedBy f l, [], ?_, fun a ha => ?_⟩
      · rw [List.filter_eq_nil_iff.2 (fun a ha => by simpa using hnone a ha), List.append_nil,
          List.append_nil]
      · rw [List.append_nil] at ha
        exact hnone a ((groupedBy_perm f l).mem_iff.1 ha)
  first_seen := by
    refine eraseDups_map_flatMap (nodup_eraseDups _) fun key hkey => ⟨?_, fun a ha => ?_⟩
    · obtain ⟨a, ha, rfl⟩ := List.mem_map.1 (List.mem_eraseDups.1 hkey)
      exact List.ne_nil_of_mem (List.mem_filter.2 ⟨ha, decide_eq_true rfl⟩)
    · simpa using (List.mem_filter.1 ha).2

end Grouping

namespace CallSite

/-! ## Putting call sites into groups -/

section Groups

variable {s : CallSite} {keys : List MethodKey} {group : MethodKey → List CallSite}

/-- A call site joins the group of its target. -/
theorem addTo_map_of_mem (hkeys : keys.Nodup) (h : s.target ∈ keys) :
    s.addTo (keys.map fun key => (key, group key)) =
      keys.map fun key => (key, group key ++ if s.target = key then [s] else []) := by
  induction keys with
  | nil => cases h
  | cons key keys ih =>
    obtain ⟨hkey, hkeys⟩ := List.nodup_cons.1 hkeys
    rw [List.map_cons, List.map_cons, addTo]
    by_cases hs : s.target = key
    · -- the other groups have other targets
      have hothers : ∀ k ∈ keys, (k, group k) =
          (k, group k ++ if s.target = k then [s] else []) := by
        intro k hk
        have hne : s.target ≠ k := fun h => hkey (hs.symm.trans h ▸ hk)
        rw [if_neg hne, List.append_nil]
      rw [if_pos hs.symm, if_pos hs, List.map_congr_left hothers]
    · rw [if_neg (Ne.symm hs), if_neg hs, List.append_nil,
        ih hkeys (List.mem_of_ne_of_mem hs h)]

/-- The first call site of a target makes a group behind all others. -/
theorem addTo_map_of_not_mem (h : s.target ∉ keys) :
    s.addTo (keys.map fun key => (key, group key)) =
      (keys.map fun key => (key, group key)) ++ [(s.target, [s])] := by
  induction keys with
  | nil => rfl
  | cons key keys ih =>
    obtain ⟨hkey, hkeys⟩ := List.ne_and_not_mem_of_not_mem_cons h
    rw [List.map_cons, addTo, if_neg hkey.symm, ih hkeys, List.cons_append]

/-- The groups of call sites by target. -/
def groupsOf (sites : List CallSite) : Groups :=
  (sites.map CallSite.target).eraseDups.map fun key =>
    (key, sites.filter fun s => s.target = key)

/-- A call site that is put into the groups of others makes the groups of all of them. -/
theorem addTo_groupsOf (s : CallSite) (sites : List CallSite) :
    s.addTo (groupsOf sites) = groupsOf (sites ++ [s]) := by
  have hfilter : ∀ key, (sites ++ [s]).filter (fun t => t.target = key) =
      sites.filter (fun t => t.target = key) ++ if s.target = key then [s] else [] := by
    intro key
    rw [List.filter_append, List.filter_singleton, Bool.cond_decide]
  rw [groupsOf, groupsOf, List.map_append, List.map_singleton, eraseDups_concat]
  simp only [hfilter]
  by_cases hs : s.target ∈ sites.map CallSite.target
  · rw [if_pos hs, addTo_map_of_mem (nodup_eraseDups _) (List.mem_eraseDups.2 hs)]
  · have hnone : sites.filter (fun t => t.target = s.target) = [] := by
      rw [List.filter_eq_nil_iff]
      intro t ht
      simpa using fun h : t.target = s.target => hs (h ▸ List.mem_map_of_mem ht)
    have hold : ∀ key ∈ (sites.map CallSite.target).eraseDups,
        (key, sites.filter (fun t => t.target = key)) =
          (key, sites.filter (fun t => t.target = key) ++ if s.target = key then [s] else []) := by
      intro key hkey
      have hne : s.target ≠ key := fun h => hs (h ▸ List.mem_eraseDups.1 hkey)
      rw [if_neg hne, List.append_nil]
    rw [if_neg hs, addTo_map_of_not_mem fun h => hs (List.mem_eraseDups.1 h), List.map_append,
      List.map_singleton, hnone, if_pos rfl, List.nil_append, List.map_congr_left hold]

/-- The groups that are filled one by one are those of the call sites of confirmed targets. -/
theorem groups_eq (confirmed : List MethodKey) (sites : List CallSite) :
    groups confirmed sites = groupsOf (sites.filter fun s => confirmed.contains s.target) := by
  induction sites using List.reverseRecOn with
  | nil => rfl
  | append_singleton sites s ih =>
    rw [groups] at ih ⊢
    rw [List.foldl_append, ih, List.foldl_cons, List.foldl_nil, List.filter_append,
      List.filter_singleton]
    cases confirmed.contains s.target with
    | true => exact addTo_groupsOf s _
    | false => exact (congrArg groupsOf (List.append_nil _)).symm

/-- **Regrouping is grouping what is confirmed.** -/
theorem regroup_eq (confirmed : List MethodKey) (sites : List CallSite) :
    regroup confirmed sites =
      groupedBy CallSite.target (sites.filter fun s => confirmed.contains s.target) := by
  rw [regroup, groups_eq, groupsOf, List.flatMap_map]
  rfl

end Groups

end CallSite

end Forwarder
