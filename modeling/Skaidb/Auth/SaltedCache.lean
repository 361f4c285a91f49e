import Skaidb.Auth.Scram
import Skaidb.Logic.Memo

/-!
# The cache of salted passwords

The cache is shared by all connections of the process. A call takes its lock twice, to look for
the credential and to keep what it has derived in between, and 64 entries are cleared before one
more is kept. The sections of all calls interleave in any order, and a lock that another thread
has poisoned is passed over. No call can tell that there is a cache.
-/

namespace Skaidb

/-- The salted password that a call of `cached_salted_password` has to return for its credential. -/
def derived (P : Primitives) (key : SaltedKey) : Digest :=
  saltedPassword P key.1 key.2.1 key.2.2

namespace SaltedCache

/-- Dropping another credential does not matter to a lookup. -/
theorem lookup_filter_ne {key key' : SaltedKey} (h : key' ≠ key) (cache : SaltedCache) :
    (cache.filter fun e => e.1 ≠ key).lookup key' = cache.lookup key' := by
  induction cache with
  | nil => rfl
  | cons e cache ih =>
    by_cases he : e.1 = key
    · rw [List.filter_cons_of_neg (by simp [he]), ih, List.lookup_cons,
        beq_false_of_ne (he ▸ h)]
    · rw [List.filter_cons_of_pos (by simp [he]), List.lookup_cons, List.lookup_cons, ih]

/-- What is found after a password was kept is that password, or was found before. -/
theorem lookup_put {cache : SaltedCache} {key key' : SaltedKey} {salted found : Digest}
    (h : (cache.put key salted).lookup key' = some found) :
    (key' = key ∧ found = salted) ∨ cache.lookup key' = some found := by
  unfold put at h
  by_cases hkey : key' = key
  · subst hkey
    rw [List.lookup_cons_self] at h
    exact .inl ⟨rfl, (Option.some.inj h).symm⟩
  · right
    rw [List.lookup_cons, beq_false_of_ne hkey] at h
    dsimp only at h
    rw [lookup_filter_ne hkey] at h
    split at h
    · cases h
    · exact h

/-- The cache of salted passwords as a table of computed values that may forget them. -/
def table : Memo.Table SaltedKey Digest SaltedCache where
  empty := []
  find cache key := cache.lookup key
  keep cache key salted := cache.put key salted
  find_empty _ := rfl
  find_keep _ _ _ _ _ h := lookup_put h

/-- A call that nothing comes between looks and keeps in the table. -/
theorem cachedSaltedPassword_eq_compute (P : Primitives) (cache : SaltedCache)
    (key : SaltedKey) : cachedSaltedPassword P cache key = table.compute (derived P) cache key := by
  have hfind : table.find cache key = cache.lookup key := rfl
  unfold cachedSaltedPassword Memo.Table.compute
  rw [hfind]
  cases cache.lookup key with
  | none => rfl
  | some hit => rfl

/-- The cache holds each credential once, and 64 at most. -/
structure Bounded (cache : SaltedCache) : Prop where
  /-- At most 64 entries. -/
  length_le : cache.length ≤ 64
  /-- No credential occurs twice among the entries. -/
  nodup : (cache.map Prod.fst).Nodup

/-- Keeping one more salted password leaves the cache within its bound of 64. -/
theorem Bounded.put {cache : SaltedCache} (h : cache.Bounded) (key : SaltedKey)
    (salted : Digest) : (cache.put key salted).Bounded := by
  unfold SaltedCache.put
  have hroom : (if cache.length ≥ 64 then [] else cache : SaltedCache).length ≤ 63 ∧
      ((if cache.length ≥ 64 then [] else cache : SaltedCache).map Prod.fst).Nodup := by
    split
    · exact ⟨Nat.zero_le _, List.nodup_nil⟩
    · exact ⟨by omega, h.nodup⟩
  obtain ⟨hlength, hnodup⟩ := hroom
  generalize (if cache.length ≥ 64 then [] else cache : SaltedCache) = kept at hlength hnodup
  constructor
  · have hfilter := List.length_filter_le (fun e => e.1 ≠ key) kept
    rw [List.length_cons]
    omega
  · rw [List.map_cons, List.nodup_cons]
    constructor
    · intro hmem
      obtain ⟨e, he, heq⟩ := List.mem_map.mp hmem
      have hne := (List.mem_filter.mp he).2
      simp [heq] at hne
    · exact hnodup.sublist (List.filter_sublist.map Prod.fst)

/-- The cache and the calls after some events, from the start of the process on. -/
def run (P : Primitives) (events : List (Memo.Event SaltedKey)) :
    Memo.Shared SaltedKey Digest SaltedCache :=
  events.foldl (Memo.step table (derived P)) table.start

/-- A call whose sections follow one another without another's in between is one call of the
function. -/
theorem run_alone (P : Primitives) (events : List (Memo.Event SaltedKey)) (key : SaltedKey) :
    run P (events ++ [.enter key, .advance (run P events).calls.length true,
        .advance (run P events).calls.length true]) =
      ⟨(cachedSaltedPassword P (run P events).table key).2, (run P events).calls ++
        [⟨key, .returned (cachedSaltedPassword P (run P events).table key).1⟩]⟩ := by
  rw [cachedSaltedPassword_eq_compute, ← Memo.step_alone]
  exact List.foldl_append

end SaltedCache

/-- **The cache of salted passwords is transparent.** Whatever calls were made and however their
sections came one after another: a call that has returned has returned the salted password of
its own arguments, a call that enters returns it after two sections at most, and the cache
holds 64 credentials at most, each once. -/
theorem salted_cache_transparent (P : Primitives) (events : List (Memo.Event SaltedKey)) :
    (∀ (i : ℕ) (call : Memo.Call SaltedKey Digest) (salted : Digest),
      (SaltedCache.run P events).calls[i]? = some call → call.phase = .returned salted →
        salted = saltedPassword P call.key.1 call.key.2.1 call.key.2.2) ∧
    (∀ password salt iterations more,
      2 ≤ more.countP (Memo.Event.advances (SaltedCache.run P events).calls.length) →
        (SaltedCache.run P (events ++ .enter (password, salt, iterations) :: more)).calls[
            (SaltedCache.run P events).calls.length]? =
          some ⟨(password, salt, iterations),
            .returned (saltedPassword P password salt iterations)⟩) ∧
    (SaltedCache.run P events).table.length ≤ 64 ∧
      ((SaltedCache.run P events).table.map Prod.fst).Nodup := by
  have hsound : Memo.Sound SaltedCache.table (derived P) (SaltedCache.run P events) :=
    Memo.Sound.start.run events
  have hbounded : SaltedCache.Bounded (SaltedCache.run P events).table := by
    apply Memo.table_invariant (I := SaltedCache.Bounded)
    · exact fun cache key salted h => h.put key salted
    · exact ⟨Nat.zero_le 64, List.nodup_nil⟩
  refine ⟨fun i call salted hcall hphase => ?_, fun password salt iterations more htwo => ?_,
    hbounded.length_le, hbounded.nodup⟩
  · exact hsound.calls call (List.mem_of_getElem? hcall) salted (.inr hphase)
  · have hreturns := Memo.returns_value hsound (password, salt, iterations) htwo
    rw [SaltedCache.run, List.foldl_append]
    exact hreturns

end Skaidb
