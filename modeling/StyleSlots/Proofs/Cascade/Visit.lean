import StyleSlots.Cascade.Order
import StyleSlots.Proofs.Cascade.Rank
import Mathlib.Data.List.Basic
import Mathlib.Data.List.Nodup
import Mathlib.Data.List.Perm.Basic

/-! # Ordering a scope is stable

    A visit writes some of the pending entries and leaves the others. What
    it does is stated about both together.

    - **Nothing is lost**: written and pending entries are those that were
      pending before. If every pending entry is visited, none is left.
    - **Rank**: what is written has at least the least rank among the
      entries that are visited, because a walk only goes up.
    - **Stability**: entries with the same property are written in the order
      in which they were pending, provided that they are visited in turn.
    - **Main statements**: `perm_orderScope` and `filter_orderScope`,
      ordering a scope moves declarations, but never two of the same
      property past each other. -/

namespace StyleSlots

namespace Cascade

/-! ## Visits -/

/-- What holds for a visit to nothing, and for a visit to an entry if it
    holds for the visits above that entry and behind it, holds for all. -/
theorem visit_induction {motive : List Entry → List Entry → List Entry × List Entry → Prop}
    (nil : ∀ pending, motive pending [] ([], pending))
    (skip : ∀ pending e work r, e ∉ pending → motive pending work r →
      motive pending (e :: work) r)
    (write : ∀ pending e work first second, e ∈ pending →
      motive (pending.erase e) (above e (pending.erase e)) first → motive first.2 work second →
      motive pending (e :: work) (first.1 ++ e :: second.1, second.2))
    (pending work : List Entry) : motive pending work (visit pending work).1 := by
  induction pending, work using visit.induct with
  | case1 pending =>
    rw [visit]
    exact nil pending
  | case2 pending e work h _ first _ ihFirst ihSecond _ =>
    rw [visit, dif_pos h]
    exact write pending e work _ _ h ihFirst ihSecond
  | case3 pending e work h ih =>
    rw [visit, dif_neg h]
    exact skip pending e work _ h ih

/-- Whether an entry has the given property. -/
def hasProp (prop : Text) (e : Entry) : Bool := e.1.prop = prop

/-- Entries are visited in turn if the work consists of all pending ones
    whose property satisfies some condition, in the order in which they are
    pending, and of others with such a property that are not pending. -/
def InTurn (pending work : List Entry) : Prop :=
  work.Nodup ∧ ∃ q : Text → Bool, (∀ e ∈ work, q e.1.prop = true) ∧
    (pending.filter fun e => q e.1.prop).Sublist work

/-- What a visit to `work` makes of the pending entries: `r.1` are written,
    and `r.2` are left. -/
structure Visited (pending work : List Entry) (r : List Entry × List Entry) : Prop where
  perm     : (r.1 ++ r.2).Perm pending
  sublist  : r.2.Sublist pending
  complete : pending.Nodup → ∀ e ∈ work, e ∉ r.2
  rank     : ∀ m, (∀ e ∈ work, m ≤ rank e.1.prop) → ∀ e ∈ r.1, m ≤ Cascade.rank e.1.prop
  stable   : pending.Nodup → InTurn pending work → ∀ prop,
    r.1.filter (hasProp prop) ++ r.2.filter (hasProp prop) = pending.filter (hasProp prop)

/-! ## Entries in turn -/

theorem inTurn_self {pending : List Entry} (h : pending.Nodup) : InTurn pending pending :=
  ⟨h, fun _ => true, fun _ _ => rfl, List.filter_sublist⟩

/-- The entries above another one are listed in the order in which they are
    pending. -/
theorem inTurn_above (e : Entry) {pending : List Entry} (h : pending.Nodup) :
    InTurn pending (above e pending) := by
  refine ⟨h.filter _, fun prop => supersedes prop e.1.prop, ?_, List.Sublist.refl _⟩
  intro other hother
  exact (List.mem_filter.1 hother).2

/-- What is left of the work is in turn for what is left pending, once its
    first entry has been looked at. -/
theorem InTurn.tail {pending rest work : List Entry} {e : Entry}
    (h : InTurn pending (e :: work)) (hrest : rest.Sublist (pending.erase e)) :
    InTurn rest work := by
  obtain ⟨hnodup, q, hq, hsub⟩ := h
  refine ⟨(List.nodup_cons.1 hnodup).2, q, fun x hx => hq x (List.mem_cons_of_mem _ hx), ?_⟩
  have herase := hsub.erase e
  rw [List.erase_filter, List.erase_cons_head] at herase
  exact (hrest.filter _).trans herase

/-- An entry that is written in turn is the first pending one with its
    property. -/
theorem InTurn.filter_hasProp {pending work : List Entry} {e : Entry}
    (h : InTurn pending (e :: work)) (he : e ∈ pending) :
    pending.filter (hasProp e.1.prop) = e :: (pending.erase e).filter (hasProp e.1.prop) := by
  obtain ⟨hnodup, q, hq, hsub⟩ := h
  have hqe := hq e (List.mem_cons_self ..)
  have hmem : e ∈ pending.filter fun x => q x.1.prop := List.mem_filter.2 ⟨he, hqe⟩
  rcases List.sublist_cons_iff.1 hsub with hsub | ⟨l, hl, _⟩
  · exact absurd (hsub.subset hmem) (List.nodup_cons.1 hnodup).1
  · have htail : l = (pending.erase e).filter fun x => q x.1.prop := by
      rw [← List.erase_filter, hl, List.erase_cons_head]
    -- the condition holds for everything with the property of `e`
    have hboth : ∀ xs : List Entry, xs.filter (hasProp e.1.prop) =
        (xs.filter fun x => q x.1.prop).filter (hasProp e.1.prop) := by
      intro xs
      rw [List.filter_filter]
      apply List.filter_congr
      intro x _
      by_cases hx : x.1.prop = e.1.prop
      · simp [hasProp, hx, hqe]
      · simp [hasProp, hx]
    rw [hboth, hboth (pending.erase e), hl, ← htail, List.filter_cons_of_pos (by simp [hasProp])]

/-- An entry with another property makes no difference. -/
theorem filter_hasProp_erase {e : Entry} {prop : Text} (h : e.1.prop ≠ prop)
    (pending : List Entry) :
    (pending.erase e).filter (hasProp prop) = pending.filter (hasProp prop) := by
  rw [← List.erase_filter, List.erase_of_not_mem]
  intro hmem
  exact h (by simpa [hasProp] using (List.mem_filter.1 hmem).2)

/-! ## What a visit does -/

namespace Visited

variable {pending work : List Entry} {e : Entry} {r first second : List Entry × List Entry}

theorem nil (pending : List Entry) : Visited pending [] ([], pending) where
  perm     := List.Perm.refl _
  sublist  := List.Sublist.refl _
  complete := by simp
  rank     := by simp
  stable   := fun _ _ _ => rfl

theorem skip (he : e ∉ pending) (h : Visited pending work r) :
    Visited pending (e :: work) r where
  perm     := h.perm
  sublist  := h.sublist
  complete := by
    intro hnodup x hx
    rcases List.mem_cons.1 hx with rfl | hx
    · exact fun hmem => he (h.sublist.subset hmem)
    · exact h.complete hnodup x hx
  rank     := fun m hm => h.rank m fun x hx => hm x (List.mem_cons_of_mem _ hx)
  stable   := by
    intro hnodup hturn
    refine h.stable hnodup (hturn.tail ?_)
    rw [List.erase_of_not_mem he]

/-- A walk goes up only, so it meets no other entry with the property of
    the one it starts from. -/
theorem filter_above (h : Visited (pending.erase e) (above e (pending.erase e)) first) :
    first.1.filter (hasProp e.1.prop) = [] := by
  have hrank := h.rank (Cascade.rank e.1.prop + 1) (by
    intro other hother
    exact rank_lt_of_supersedes (List.mem_filter.1 hother).2)
  rw [List.filter_eq_nil_iff]
  intro x hx hprop
  have heq : x.1.prop = e.1.prop := by simpa [hasProp] using hprop
  have hle := hrank x hx
  rw [heq] at hle
  omega

theorem write (he : e ∈ pending)
    (hfirst : Visited (pending.erase e) (above e (pending.erase e)) first)
    (hsecond : Visited first.2 work second) :
    Visited pending (e :: work) (first.1 ++ e :: second.1, second.2) where
  perm := by
    have hsplit : first.1 ++ e :: second.1 ++ second.2 =
        first.1 ++ e :: (second.1 ++ second.2) := by simp
    show (first.1 ++ e :: second.1 ++ second.2).Perm pending
    rw [hsplit]
    have hrest := ((hsecond.perm.append_left first.1).trans hfirst.perm).cons e
    exact (List.perm_middle.trans hrest).trans (List.perm_cons_erase he).symm
  sublist := (hsecond.sublist.trans hfirst.sublist).trans List.erase_sublist
  complete := by
    intro hnodup x hx
    have hrest : first.2.Nodup := hfirst.sublist.nodup (hnodup.erase e)
    rcases List.mem_cons.1 hx with rfl | hx
    · -- `x` has left the pending entries before anything else is visited
      intro hmem
      exact hnodup.not_mem_erase (hfirst.sublist.subset (hsecond.sublist.subset hmem))
    · exact hsecond.complete hrest x hx
  rank := by
    intro m hm x hx
    have hme := hm e (List.mem_cons_self ..)
    rcases List.mem_append.1 hx with hx | hx
    · refine hfirst.rank m ?_ x hx
      intro other hother
      have hlt := rank_lt_of_supersedes (List.mem_filter.1 hother).2
      omega
    · rcases List.mem_cons.1 hx with rfl | hx
      · exact hme
      · exact hsecond.rank m (fun y hy => hm y (List.mem_cons_of_mem _ hy)) x hx
  stable := by
    intro hnodup hturn prop
    have herase : (pending.erase e).Nodup := hnodup.erase e
    have hstable₁ := hfirst.stable herase (inTurn_above e herase) prop
    have hstable₂ := hsecond.stable (hfirst.sublist.nodup herase)
      (hturn.tail hfirst.sublist) prop
    show (first.1 ++ e :: second.1).filter (hasProp prop) ++ second.2.filter (hasProp prop) = _
    by_cases hprop : e.1.prop = prop
    · -- nothing above `e` has its property, so `e` comes first among its own
      subst hprop
      rw [hfirst.filter_above, List.nil_append] at hstable₁
      rw [List.filter_append, hfirst.filter_above, List.nil_append,
        List.filter_cons_of_pos (by simp [hasProp]), List.cons_append, hstable₂, hstable₁,
        hturn.filter_hasProp he]
    · -- for all other properties `e` may as well not be there
      rw [List.filter_append, List.filter_cons_of_neg (by simp [hasProp, hprop]),
        List.append_assoc, hstable₂, hstable₁, filter_hasProp_erase hprop]

end Visited

theorem visited_visit (pending work : List Entry) :
    Visited pending work (visit pending work).1 := by
  induction pending, work using visit_induction with
  | nil pending => exact Visited.nil pending
  | skip pending e work r he ih => exact ih.skip he
  | write pending e work first second he ihFirst ihSecond => exact ihFirst.write he ihSecond

/-! ## Scopes -/

section Scopes

variable (ds : List Declaration)

theorem nodup_zipIdx : ds.zipIdx.Nodup := by
  apply List.Nodup.of_map Prod.snd
  rw [List.zipIdx_map_snd]
  exact List.nodup_range'

theorem pairwise_zipIdx : ds.zipIdx.Pairwise fun a b => a.2 < b.2 := by
  have hincreasing : (ds.zipIdx.map Prod.snd).Pairwise (· < ·) := by
    rw [List.zipIdx_map_snd]
    exact List.pairwise_lt_range'
  exact List.pairwise_map.1 hincreasing

/-- A visit to all entries of a scope leaves none pending. -/
theorem rest_visit_zipIdx : (visit ds.zipIdx ds.zipIdx).1.2 = [] := by
  have h := visited_visit ds.zipIdx ds.zipIdx
  apply List.eq_nil_iff_forall_not_mem.2
  intro e he
  exact h.complete (nodup_zipIdx ds) e (h.sublist.subset he) he

/-- The entries of a scope in the order in which they are written. -/
def written : List Entry := (visit ds.zipIdx ds.zipIdx).1.1

theorem map_fst_written : (written ds).map Prod.fst = orderScope ds := rfl

theorem perm_written : (written ds).Perm ds.zipIdx := by
  have h := (visited_visit ds.zipIdx ds.zipIdx).perm
  rwa [rest_visit_zipIdx, List.append_nil] at h

theorem filter_written (prop : Text) :
    (written ds).filter (hasProp prop) = ds.zipIdx.filter (hasProp prop) := by
  have hnodup := nodup_zipIdx ds
  have h := (visited_visit ds.zipIdx ds.zipIdx).stable hnodup (inTurn_self hnodup) prop
  rwa [rest_visit_zipIdx, List.filter_nil, List.append_nil] at h

/-- Ordering a scope keeps its declarations, values and all. -/
theorem perm_orderScope : (orderScope ds).Perm ds := by
  have h := (perm_written ds).map Prod.fst
  rwa [map_fst_written, List.zipIdx_map_fst] at h

/-- Ordering a scope moves no two declarations of one property past each
    other. -/
theorem filter_orderScope (prop : Text) :
    (orderScope ds).filter (fun d => d.prop = prop) = ds.filter fun d => d.prop = prop := by
  have hmap : ∀ es : List Entry, (es.map Prod.fst).filter (fun d => d.prop = prop) =
      (es.filter (hasProp prop)).map Prod.fst := by
    intro es
    rw [List.filter_map]
    rfl
  calc (orderScope ds).filter (fun d => d.prop = prop)
      = ((written ds).filter (hasProp prop)).map Prod.fst := hmap _
    _ = (ds.zipIdx.filter (hasProp prop)).map Prod.fst := by rw [filter_written]
    _ = ds.filter (fun d => d.prop = prop) := by rw [← hmap, List.zipIdx_map_fst]

end Scopes

end Cascade

end StyleSlots
