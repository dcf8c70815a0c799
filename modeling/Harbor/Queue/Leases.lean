import Harbor.Queue.Durable

/-!
# Which candidates a queue holds

`Publish`, `Claim`, `Ack` and `Nack` seen through the ids and candidates of the
items: a claim hands out candidates that are and stay in the queue, each at
most once, and only an ack removes one.
-/

namespace Harbor.Queue

open Library List

def Item.entry (item : Item) : Int × Candidate :=
  (item.id, item.candidate)

def entries (items : Items) : List (Int × Candidate) :=
  items.rows.map Item.entry

def Leased.entry (leased : Leased) : Int × Candidate :=
  (leased.id, leased.candidate)

theorem nodup_entries (xs : Items) : ((entries xs).map Prod.fst).Nodup := by
  have eq : (entries xs).map Prod.fst = xs.rows.map Item.id := by
    simp [entries, Item.entry, Function.comp_def]
  rw [eq]
  exact xs.nodup

theorem entries_update (xs : Items) (sel : Item → Bool)
    (keepsCandidate : ∀ i, (ch i).candidate = i.candidate) :
    entries (xs.update sel ch keep) = entries xs := by
  simp only [entries, Table.update, map_map]
  apply map_congr_left
  intro i _
  simp only [Function.comp_apply, Item.entry]
  split
  · rw [keep, keepsCandidate]
  · rfl

theorem lease_entries (mac : Candidate → Bytes) (till : Int)
    (item : Item) (xs : Items) (lent : List Leased) :
    entries (lease mac till item xs lent).1 = entries xs ∧
      ((lease mac till item xs lent).2 = lent ∨ ∃ one, one.entry = item.entry ∧
          (lease mac till item xs lent).2 = lent ++ [one]) := by
  unfold lease
  split
  · refine ⟨?_, .inl rfl⟩
    apply entries_update <;> exact fun _ => rfl
  · split
    · exact ⟨rfl, .inl rfl⟩
    · refine ⟨?_, .inr ⟨_, rfl, rfl⟩⟩
      apply entries_update <;> exact fun _ => rfl

theorem leases_entries (mac : Candidate → Bytes) (till : Int)
    (sel : List Item) (xs : Items) (lent : List Leased) :
    let out := sel.foldl (fun s item => lease mac till item s.1 s.2) (xs, lent)
    entries out.1 = entries xs ∧ ∃ new : List Leased, out.2 = lent ++ new ∧
        (new.map Leased.entry).Sublist (sel.map Item.entry) := by
  induction sel generalizing xs lent with
  | nil => exact ⟨rfl, [], by simp, List.Sublist.refl _⟩
  | cons item rest ih =>
    obtain ⟨kept, did⟩ := lease_entries mac till item xs lent
    obtain ⟨same, new, appended, lies⟩ := ih (lease mac till item xs lent).1
      (lease mac till item xs lent).2
    refine ⟨same.trans kept, ?_⟩
    rcases did with skipped | ⟨one, entry, ins⟩
    · exact ⟨new, appended.trans (by rw [skipped]), lies.trans (sublist_cons_self _ _)⟩
    · refine ⟨one :: new, appended.trans (by simp [ins]), ?_⟩
      rw [map_cons, map_cons, entry]
      exact lies.cons_cons _

theorem claim_entries (xs : Items) (mac : Candidate → Bytes) (m : Nat) (ttl now : Int) :
    entries (claim xs mac m ttl now).2 = entries xs ∧
      ((claim xs mac m ttl now).1.map Leased.entry).Subperm (entries xs) := by
  have reclaimed : entries (reclaim xs now) = entries xs := entries_update _ _ fun _ => rfl
  obtain ⟨eq, new, appended, lies⟩ := leases_entries mac (now + ttl)
    (readyItems (reclaim xs now) m) (reclaim xs now) []
  refine ⟨eq.trans reclaimed, ?_⟩
  change (List.map Leased.entry (Prod.snd _)).Subperm _
  rw [appended, nil_append, ← reclaimed]
  refine lies.subperm.trans ?_
  refine ((take_sublist _ _).map _).subperm.trans ?_
  refine ((perm_insertionSort _ _).map _).subperm.trans ?_
  exact (filter_sublist.map _).subperm

theorem ack_entries (xs : Items) (id : Int) : entries (ack xs id) = (entries xs).filter fun entry =>
      entry.1 != id := by
  simp only [entries, ack, Table.keep, filter_map]
  rfl

theorem nack_entries {xs new : Items} {maxAttempts : Nat} {id : Int}
    (nacked : nack xs maxAttempts id = some new) : entries new = entries xs := by
  obtain ⟨item, -, rfl⟩ := Option.map_eq_some_iff.mp nacked
  unfold nackItem
  split
  · exact entries_update _ _ fun _ => rfl
  · exact entries_update _ _ fun _ => rfl

theorem publish_entries {xs new : Items} {mac : Candidate → Bytes}
    {maxDepth : Nat} {id : Int} {c : Candidate} (pub : publish xs mac maxDepth id c = .ok new) :
    entries new = entries xs ++ [(id, c)] ∧ c.enrollmentID ∉
        (entries xs).map fun entry => entry.2.enrollmentID := by
  unfold publish at pub
  split_ifs at pub
  obtain ⟨fresh, put⟩ := insertCandidate_ok pub
  obtain ⟨appended, _⟩ := Table.insert?_eq_some put
  refine ⟨?_, ?_⟩
  · simp [entries, appended, Item.entry]
  · simpa [entries, Item.entry, Function.comp_def] using fresh

theorem nodup_of_subperm {V Name : Type} {low large : List V}
    (lies : low.Subperm large) (n : V → Name) (uniq : (large.map n).Nodup) : (low.map n).Nodup := by
  obtain ⟨list, permuted, sublist⟩ := lies
  exact (permuted.map n).nodup_iff.mp (uniq.sublist (sublist.map n))

end Harbor.Queue
