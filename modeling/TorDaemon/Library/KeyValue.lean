import Mathlib.Data.List.Basic

/-! Entries with keys. Those with a known key are taken the first time that they come, and all
others are kept in their order. -/
namespace TorDaemon.Library.KeyValue
variable {ε κ ν : Type*} [DecidableEq κ]

/-- The values of the keys, and the entries that are no such values. -/
structure Collected (ε κ ν : Type*) where
  vals : κ → Option ν
  extra : List ε

/-- `split` gives the known key of an entry, and its value. -/
def collectEntry (split : ε → Option (κ × ν)) (c : Collected ε κ ν) (entry : ε) : Collected ε κ ν :=
  match split entry with
  | none => { c with extra := c.extra ++ [entry] }
  | some (key, v) =>
    if c.vals key = none then { c with vals := Function.update c.vals key (some v) }
    else { c with extra := c.extra ++ [entry] }

def collect (split : ε → Option (κ × ν)) (entries : List ε) : Collected ε κ ν :=
  entries.foldl (collectEntry split) ⟨fun _ => none, []⟩

section Collect
variable {split : ε → Option (κ × ν)} {entries : List ε} {c : Collected ε κ ν} {keys : List κ}
  {value : κ → Option ν} {render : κ → ν → ε}

/-- Entries without a known key are kept. -/
theorem foldl_unknown (h : ∀ entry ∈ entries, split entry = none) :
    entries.foldl (collectEntry split) c = { c with extra := c.extra ++ entries } := by
  induction entries generalizing c with
  | nil => simp
  | cons entry entries ih =>
    rw [List.foldl_cons, ih fun e he => h e (.tail _ he), collectEntry, h entry (.head _)]
    simp

/-- The entries that are written for the keys that have a value. -/
def written (value : κ → Option ν) (render : κ → ν → ε) (keys : List κ) : List ε :=
  keys.filterMap fun key => (value key).map (render key)

theorem foldl_written (hsplit : ∀ key, ∀ v ∈ value key, split (render key v) = some (key, v))
    (hkeys : keys.Nodup) (hfree : ∀ key ∈ keys, c.vals key = none) :
    (written value render keys).foldl (collectEntry split) c =
      { c with vals := fun key => if key ∈ keys then value key else c.vals key } := by
  induction keys generalizing c with
  | nil => simp [written]
  | cons key keys ih =>
    obtain ⟨hkey, hkeys⟩ := List.nodup_cons.mp hkeys
    have hfirst := hfree key (.head _)
    have hother : ∀ key' ∈ keys, key' ≠ key := fun key' hmem heq => hkey (heq ▸ hmem)
    cases hvalue : value key with
    | none =>
      have hrest : written value render (key :: keys) = written value render keys :=
        List.filterMap_cons_none (by rw [hvalue, Option.map_none])
      rw [hrest, ih hkeys fun key' hmem => hfree key' (.tail _ hmem)]
      congr 1
      funext key'
      by_cases heq : key' = key
      · subst heq
        simp [hkey, hvalue, hfirst]
      · simp [heq]
    | some v =>
      have hrest : written value render (key :: keys) =
          render key v :: written value render keys :=
        List.filterMap_cons_some (by rw [hvalue, Option.map_some])
      have hset : collectEntry split c (render key v) =
          { c with vals := Function.update c.vals key (some v) } := by
        rw [collectEntry, hsplit key v hvalue]
        exact if_pos hfirst
      rw [hrest, List.foldl_cons, hset, ih hkeys]
      · congr 1
        funext key'
        by_cases heq : key' = key
        · subst heq
          simp [hkey, hvalue]
        · simp [heq]
      · intro key' hmem
        exact (Function.update_of_ne (hother key' hmem) _ _).trans (hfree key' (.tail _ hmem))

theorem collect_written (hsplit : ∀ key, ∀ v ∈ value key, split (render key v) = some (key, v))
    (hkeys : keys.Nodup) (hall : ∀ key, key ∈ keys)
    (hextra : ∀ entry ∈ entries, split entry = none) :
    collect split (written value render keys ++ entries) = ⟨value, entries⟩ := by
  rw [collect, List.foldl_append, foldl_written hsplit hkeys fun _ _ => rfl, foldl_unknown hextra]
  congr 1
  funext key
  exact if_pos (hall key)

end Collect

end TorDaemon.Library.KeyValue
