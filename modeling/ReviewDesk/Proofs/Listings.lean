import Mathlib.Data.List.Nodup
import Mathlib.Data.Prod.Basic
import Mathlib.Data.String.Basic
import Mathlib.Order.RelClasses
import ReviewDesk.Keyed
import ReviewDesk.Proofs.StoreSteps
import ReviewDesk.Stats

/-!
# Listings do not depend on the order of rows

Rows lie in some order, and what is made of them comes out in another: users by id, pull
requests from the newest on, counts from the largest on, entries of a map by key.  Each of
these orders is a strict total order of something that tells the rows apart.  So rows that
lie in two different orders make one listing.

Times are listed as their written forms are ordered, which is not the order of time for all
years; it is total all the same.

* `arrange_pairwise` — an arranged list is in order;
* `arrange_eq_of_perm` — arranging undoes any reordering;
* `arrange_strict`, `arrange_filter` — a listing of rows with distinct ranks, and of some of
  them;
* `Keyed.ext_get?` — a map is known by what a search finds in it;
* `Keyed.ofList_eq_of_perm` — collecting entries with distinct keys undoes any reordering;
* `find?_eq_of_perm` — and a search by key.
-/

namespace ReviewDesk

variable {α : Type} {l m : List α}

/-! ## Arranging -/

section Arrange

variable {κ : Type} (lt : κ → κ → Prop) [IsStrictTotalOrder κ lt] (rank : α → κ)
  {precedes : α → α → Bool} (hlt : ∀ a b, precedes a b = true ↔ lt (rank a) (rank b))

include hlt

/-- In an arranged list no entry ranks below an earlier one. -/
theorem arrange_pairwise (l : List α) :
    (arrange precedes l).Pairwise fun a b => ¬ lt (rank b) (rank a) := by
  have hfalse : ∀ a b, precedes a b = false ↔ ¬ lt (rank a) (rank b) := by
    intro a b
    rw [← hlt, Bool.not_eq_true]
  have trans : ∀ a b c, precedes a b = false → precedes b c = false → precedes a c = false := by
    intro a b c hab hbc
    rw [hfalse] at hab hbc ⊢
    intro hac
    rcases trichotomous_of lt (rank a) (rank b) with hless | heq | hmore
    · exact hab hless
    · exact hbc (heq ▸ hac)
    · exact hbc (trans_of lt hmore hac)
  have asymm : ∀ a b, precedes a b = true → precedes b a = false := by
    intro a b hab
    rw [hlt] at hab
    rw [hfalse]
    exact asymm_of lt hab
  have hsorted := arrange_sorted trans asymm l
  exact hsorted.imp fun {a b} h => (hfalse b a).1 h

/-- Rows that have different ranks are arranged alike, however they lie. -/
theorem arrange_eq_of_perm (hinj : ∀ a ∈ l, ∀ b ∈ l, rank a = rank b → a = b) (h : l.Perm m) :
    arrange precedes l = arrange precedes m := by
  have hl := arrange_perm precedes l
  have hm := arrange_perm precedes m
  refine List.Perm.eq_of_pairwise ?_ (arrange_pairwise lt rank hlt l)
    (arrange_pairwise lt rank hlt m) (hl.trans (h.trans hm.symm))
  -- two rows that may stand in either order have the same rank
  intro a b ha hb hba hab
  have ha : a ∈ l := hl.mem_iff.1 ha
  have hb : b ∈ l := h.mem_iff.2 (hm.mem_iff.1 hb)
  rcases trichotomous_of lt (rank a) (rank b) with hless | heq | hmore
  · exact absurd hless hab
  · exact hinj a ha b hb heq
  · exact absurd hmore hba

/-- Rows that all have different ranks are arranged strictly. -/
theorem arrange_strict (hranks : (l.map rank).Nodup) :
    (arrange precedes l).Pairwise fun a b => lt (rank a) (rank b) := by
  have hsorted := arrange_pairwise lt rank hlt l
  have hdistinct : (arrange precedes l).Pairwise fun a b => rank a ≠ rank b :=
    List.pairwise_map.1 (((arrange_perm precedes l).map rank).nodup_iff.2 hranks)
  refine (hsorted.and hdistinct).imp fun {a b} h => ?_
  rcases trichotomous_of lt (rank a) (rank b) with hless | heq | hmore
  · exact hless
  · exact absurd heq h.2
  · exact absurd hmore h.1

/-- Some of the rows are arranged as they stand in the listing of all. -/
theorem arrange_filter (hranks : (l.map rank).Nodup) (keep : α → Bool) :
    arrange precedes (l.filter keep) = (arrange precedes l).filter keep := by
  have hsome : ((l.filter keep).map rank).Nodup := nodup_keys_filter keep hranks
  have hperm : (arrange precedes (l.filter keep)).Perm ((arrange precedes l).filter keep) :=
    (arrange_perm precedes _).trans ((arrange_perm precedes l).symm.filter keep)
  refine hperm.eq_of_pairwise ?_ (arrange_strict lt rank hlt hsome)
    ((arrange_strict lt rank hlt hranks).filter keep)
  intro a b _ _ hab hba
  exact absurd hba (asymm_of lt hab)

end Arrange

/-! ## Orders of listings -/

instance isStrictTotalOrder_lex {β γ : Type} {r : β → β → Prop} {s : γ → γ → Prop}
    [IsStrictTotalOrder β r] [IsStrictTotalOrder γ s] :
    IsStrictTotalOrder (β × γ) (Prod.Lex r s) where

/-- Later stored times come first. -/
def Instant.IsLater (s t : Instant) : Prop := t.storedLt s = true

theorem Instant.storedLt_iff {s t : Instant} :
    s.storedLt t = true ↔ s.yearRank < t.yearRank ∨ s.yearRank = t.yearRank ∧
      (s.seconds < t.seconds ∨ s.seconds = t.seconds ∧ s.nanos < t.nanos) := by
  simp only [storedLt, decide_eq_true_eq]
  rfl

instance isStrictTotalOrder_isLater : IsStrictTotalOrder Instant Instant.IsLater where
  trichotomous s t hst hts := by
    rw [Instant.IsLater, Instant.storedLt_iff] at hst hts
    have hseconds : s.seconds = t.seconds := by omega
    have hnanos : s.nanos = t.nanos := by omega
    cases s
    cases t
    simp_all
  irrefl s hs := by
    rw [Instant.IsLater, Instant.storedLt_iff] at hs
    omega
  trans s t u hst htu := by
    rw [Instant.IsLater, Instant.storedLt_iff] at hst htu ⊢
    omega

/-- Users by id. -/
theorem arrange_users {l m : List User} (hids : (l.map (·.id)).Nodup) (h : l.Perm m) :
    arrange (·.id < ·.id) l = arrange (·.id < ·.id) m :=
  arrange_eq_of_perm (· < ·) User.id (fun _ _ => decide_eq_true_iff)
    (fun _ ha _ hb heq => List.inj_on_of_nodup_map hids ha hb heq) h

theorem arrange_users_strict {l : List User} (hids : (l.map (·.id)).Nodup) :
    (arrange (·.id < ·.id) l).Pairwise fun u v => u.id < v.id :=
  arrange_strict (· < ·) User.id (fun _ _ => decide_eq_true_iff) hids

theorem arrange_users_filter {l : List User} (hids : (l.map (·.id)).Nodup) (keep : User → Bool) :
    arrange (·.id < ·.id) (l.filter keep) = (arrange (·.id < ·.id) l).filter keep :=
  arrange_filter (· < ·) User.id (fun _ _ => decide_eq_true_iff) hids keep

/-- Pull requests from the newest on. -/
theorem arrange_pulls {l m : List StoredPull} (hids : (l.map (·.id)).Nodup) (h : l.Perm m) :
    arrange Store.isListedBefore l = arrange Store.isListedBefore m := by
  refine arrange_eq_of_perm (Prod.Lex Instant.IsLater fun a b : PullId => a < b)
    (fun p => (p.createdAt, p.id)) (fun p q => ?_) (fun p hp q hq heq => ?_) h
  · simp [Store.isListedBefore, Prod.lex_def, Instant.IsLater]
  · exact List.inj_on_of_nodup_map hids hp hq (Prod.mk.inj heq).2

theorem arrange_pulls_strict {l : List StoredPull} (hids : (l.map (·.id)).Nodup) :
    (arrange Store.isListedBefore l).Pairwise fun p q =>
      q.createdAt.storedLt p.createdAt = true ∨ p.createdAt = q.createdAt ∧ p.id < q.id := by
  have hranks : (l.map fun p => (p.createdAt, p.id)).Nodup := by
    refine List.Nodup.of_map Prod.snd ?_
    rw [List.map_map]
    exact hids
  have hstrict : (arrange Store.isListedBefore l).Pairwise fun p q =>
      Prod.Lex Instant.IsLater (fun a b : PullId => a < b) (p.createdAt, p.id)
        (q.createdAt, q.id) :=
    arrange_strict _ _
      (fun p q => by simp [Store.isListedBefore, Prod.lex_def, Instant.IsLater]) hranks
  refine hstrict.imp fun {p q} h => ?_
  rwa [Prod.lex_def] at h

/-- Counts from the largest on. -/
theorem arrange_tallies {l m : List Tally} (hids : (l.map (·.id)).Nodup) (h : l.Perm m) :
    arrange Tally.isListedBefore l = arrange Tally.isListedBefore m := by
  refine arrange_eq_of_perm (Prod.Lex (fun a b : Nat => a > b) fun a b : String => a < b)
    (fun t => (t.count, t.id)) (fun s t => ?_) (fun s hs t ht heq => ?_) h
  · simp [Tally.isListedBefore, Prod.lex_def]
  · exact List.inj_on_of_nodup_map hids hs ht (Prod.mk.inj heq).2

theorem arrange_tallies_strict {l : List Tally} (hids : (l.map (·.id)).Nodup) :
    (arrange Tally.isListedBefore l).Pairwise fun s t =>
      t.count < s.count ∨ s.count = t.count ∧ s.id < t.id := by
  have hranks : (l.map fun t => (t.count, t.id)).Nodup := by
    refine List.Nodup.of_map Prod.snd ?_
    rw [List.map_map]
    exact hids
  have hstrict : (arrange Tally.isListedBefore l).Pairwise fun s t =>
      Prod.Lex (fun a b : Nat => a > b) (fun a b : String => a < b) (s.count, s.id)
        (t.count, t.id) :=
    arrange_strict _ _ (fun s t => by simp [Tally.isListedBefore, Prod.lex_def]) hranks
  refine hstrict.imp fun {s t} h => ?_
  rwa [Prod.lex_def] at h

/-! ## Searching and collecting -/

/-- A search by key finds the same row, however the rows lie. -/
theorem find?_eq_of_perm {κ : Type} [DecidableEq κ] {key : α → κ} (hkeys : (l.map key).Nodup)
    (h : l.Perm m) (k : κ) : l.find? (fun a => key a = k) = m.find? (fun a => key a = k) := by
  have hkeys' : (m.map key).Nodup := (h.map key).nodup_iff.1 hkeys
  cases hl : l.find? (fun a => key a = k) with
  | some a =>
      obtain ⟨ha, rfl⟩ := mem_of_find?_key hl
      exact (find?_eq_some_of_mem hkeys' (h.mem_iff.1 ha)).symm
  | none =>
      symm
      rw [List.find?_eq_none] at hl ⊢
      exact fun a ha => hl a (h.mem_iff.2 ha)

namespace Keyed

variable {ν : Type} {m n : Keyed String ν} {entries others : List (String × ν)}

/-- Maps with the same entries are equal. -/
theorem ext_mem (h : ∀ e, e ∈ m.toList ↔ e ∈ n.toList) : m = n := by
  have ascends : ∀ k : Keyed String ν, k.toList.Pairwise (·.1 < ·.1) := fun k =>
    List.pairwise_map.1 k.ascends
  have nodup : ∀ k : Keyed String ν, k.toList.Nodup := by
    intro k
    refine (ascends k).imp fun hlt heq => ?_
    subst heq
    exact String.lt_irrefl _ hlt
  have hperm : m.toList.Perm n.toList := (List.perm_ext_iff_of_nodup (nodup _) (nodup _)).2 h
  have hlist : m.toList = n.toList :=
    hperm.eq_of_pairwise (fun e f _ _ hef hfe => absurd (Std.lt_trans hef hfe) Std.lt_irrefl)
      (ascends _) (ascends _)
  cases m
  cases n
  simpa using hlist

/-- A search finds what is under the key. -/
theorem get?_eq_some_iff {k : String} {v : ν} : m.get? k = some v ↔ (k, v) ∈ m.toList := by
  rw [mem_iff_find?_key m.keys.nodup, get?, Option.map_eq_some_iff]
  constructor
  · rintro ⟨e, hfind, rfl⟩
    obtain ⟨-, rfl⟩ := mem_of_find?_key hfind
    exact hfind
  · exact fun hfind => ⟨_, hfind, rfl⟩

theorem mem_keys_iff {k : String} : k ∈ m.keys ↔ ∃ v, m.get? k = some v := by
  simp only [get?_eq_some_iff]
  constructor
  · intro hk
    obtain ⟨e, he, rfl⟩ := List.mem_map.1 hk
    exact ⟨e.2, he⟩
  · rintro ⟨v, hv⟩
    exact List.mem_map_of_mem (f := Prod.fst) hv

/-- Maps in which every search finds the same are equal. -/
theorem ext_get? (h : ∀ k, m.get? k = n.get? k) : m = n :=
  ext_mem fun e => by rw [← get?_eq_some_iff, h, get?_eq_some_iff]

/-- Maps with the same keys and the same values are equal. -/
theorem ext_getD (hkeys : ∀ k, k ∈ m.keys ↔ k ∈ n.keys) (d : ν)
    (hvalues : ∀ k, m.getD k d = n.getD k d) : m = n := by
  refine ext_get? fun k => ?_
  have hkey := hkeys k
  have hvalue := hvalues k
  rw [mem_keys_iff, mem_keys_iff] at hkey
  rw [getD, getD] at hvalue
  cases hm : m.get? k <;> cases hn : n.get? k <;> simp_all

/-- What is listed under distinct keys is collected. -/
theorem mem_ofList_iff (hkeys : (entries.map Prod.fst).Nodup) {e : String × ν} :
    e ∈ (ofList entries).toList ↔ e ∈ entries := by
  constructor
  · exact mem_of_mem_ofList
  · intro he
    have hkey : e.1 ∈ (ofList entries).keys := mem_keys_ofList.2 (List.mem_map_of_mem he)
    obtain ⟨f, hf, hsame⟩ := List.mem_map.1 (Ascending.mem_toList.2 hkey)
    have heq := List.inj_on_of_nodup_map hkeys (mem_of_mem_ofList hf) he hsame
    exact heq ▸ hf

theorem ofList_eq_of_perm (hkeys : (entries.map Prod.fst).Nodup) (h : entries.Perm others) :
    ofList entries = ofList others := by
  have hkeys' : (others.map Prod.fst).Nodup := (h.map Prod.fst).nodup_iff.1 hkeys
  exact ext_mem fun e => by rw [mem_ofList_iff hkeys, mem_ofList_iff hkeys', h.mem_iff]

end Keyed

end ReviewDesk
