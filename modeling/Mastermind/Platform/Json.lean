import Mathlib

/-!
# JSON values

Payloads and server configurations are JSON. An object is the list of its properties in the order
in which a program or a document defines them; `lookup` reads a property, and `spread` is the
object literal `{ ...base, ...own }`, in which the properties of `own` win (`lookup_spread`).
-/

namespace Mastermind

/-- A JSON value. -/
inductive Json where
  | null
  | bool (b : Bool)
  | num (n : ℚ)
  | str (s : String)
  | arr (items : List Json)
  | obj (props : List (String × Json))

/-- The properties of an object. -/
abbrev JsonObject := List (String × Json)

namespace JsonObject

/-- The object literal `{ ...base, ...own }`: the properties of `base`, with the values that
`own` gives them, and then the other properties of `own`. -/
def spread (base own : JsonObject) : JsonObject :=
  base.map (fun p => (p.1, (own.lookup p.1).getD p.2)) ++
    own.filter fun p => (base.lookup p.1).isNone

/-- The property `k`, if `v` is not `undefined`. -/
def prop (k : String) (v : Option Json) : JsonObject := v.toList.map fun j => (k, j)

/-- A property read through a map of the values by key. -/
theorem lookup_map (o : JsonObject) (g : String → Json → Json) (k : String) :
    (o.map fun p => (p.1, g p.1 p.2)).lookup k = (o.lookup k).map (g k) := by
  induction o with
  | nil => rfl
  | cons p o ih =>
    obtain ⟨k', v⟩ := p
    rw [List.map_cons, List.lookup_cons, List.lookup_cons, ih]
    cases h : k == k' with
    | true => rw [beq_iff_eq.mp h]; rfl
    | false => rfl

/-- A property read through a filter of the keys. -/
theorem lookup_filter (o : JsonObject) (q : String → Bool) (k : String) :
    (o.filter fun p => q p.1).lookup k = if q k then o.lookup k else none := by
  induction o with
  | nil => simp
  | cons p o ih =>
    obtain ⟨k', v⟩ := p
    rw [List.filter_cons, List.lookup_cons]
    cases h : k == k' with
    | true =>
      rw [beq_iff_eq.mp h] at ih ⊢
      cases hq : q k' <;> simp [ih, hq]
    | false => cases hq : q k' <;> simp [List.lookup_cons, ih, h]

/-- In `{ ...base, ...own }` the properties of `own` win. -/
theorem lookup_spread (base own : JsonObject) (k : String) :
    (spread base own).lookup k = (own.lookup k).or (base.lookup k) := by
  rw [spread, List.lookup_append, lookup_map base fun k v => (own.lookup k).getD v,
    lookup_filter own fun k => (base.lookup k).isNone]
  cases base.lookup k <;> cases own.lookup k <;> rfl

/-- Reading the property that `prop` defines. -/
theorem lookup_prop (k k' : String) (v : Option Json) :
    (prop k v).lookup k' = if k' = k then v else none := by
  cases v with
  | none => simp [prop]
  | some j =>
    by_cases h : k' = k
    · simp [prop, h]
    · have hb : (k' == k) = false := by simpa using h
      simp [prop, List.lookup_cons, hb, h]

/-- Each property is defined once. -/
def Distinct (o : JsonObject) : Prop := (o.map Prod.fst).Nodup

/-- A property of an object is what reading it gives. -/
theorem Distinct.lookup {o : JsonObject} (h : o.Distinct) {p : String × Json} (hp : p ∈ o) :
    List.lookup p.1 o = some p.2 := by
  induction o with
  | nil => exact absurd hp List.not_mem_nil
  | cons q o ih =>
    obtain ⟨hq, ho⟩ := List.nodup_cons.mp h
    rcases List.mem_cons.mp hp with rfl | hp
    · obtain ⟨k, v⟩ := p
      exact List.lookup_cons_self
    · have hne : ¬p.1 = q.1 := fun heq => hq (heq ▸ List.mem_map_of_mem hp)
      rw [List.lookup_cons, beq_eq_false_iff_ne.mpr hne]
      exact ih ho hp

/-- A property of `{ ...base, ...own }` that `own` defines has the value that `own` gives it. -/
theorem snd_of_mem_spread {base own : JsonObject} (h : own.Distinct) {p : String × Json}
    (hp : p ∈ spread base own) {v : Json} (hv : own.lookup p.1 = some v) : p.2 = v := by
  rcases List.mem_append.mp hp with hp | hp
  · obtain ⟨q, -, rfl⟩ := List.mem_map.mp hp
    dsimp only at hv ⊢
    rw [hv]
    rfl
  · have hlookup := h.lookup (List.mem_of_mem_filter hp)
    exact Option.some.inj (hlookup.symm.trans hv)

/-- The properties that `own` defines are those of `{ ...base, ...own }`. -/
theorem isSome_lookup_spread {base own : JsonObject} {p : String × Json} (hp : p ∈ own) :
    ((spread base own).lookup p.1).isSome = true := by
  rw [lookup_spread]
  have hsome : (own.lookup p.1).isSome = true := by
    rw [List.lookup_isSome_iff]
    exact ⟨p, hp, by simp⟩
  obtain ⟨v, hv⟩ := Option.isSome_iff_exists.mp hsome
  rw [hv]
  rfl

/-- A spread that defines no other properties gives those of the object other values. -/
theorem spread_eq_map {base own : JsonObject}
    (h : ∀ p ∈ own, (base.lookup p.1).isSome = true) :
    spread base own = base.map fun p => (p.1, (own.lookup p.1).getD p.2) := by
  have hfilter : (own.filter fun p => (base.lookup p.1).isNone) = [] := by
    rw [List.filter_eq_nil_iff]
    intro p hp
    rw [← Option.not_isSome, h p hp]
    simp
  rw [spread, hfilter, List.append_nil]

/-- Spreading the same properties once more changes nothing. -/
theorem spread_spread {own : JsonObject} (h : own.Distinct) (base : JsonObject) :
    spread (spread base own) own = spread base own := by
  rw [spread_eq_map fun p hp => isSome_lookup_spread hp]
  conv_rhs => rw [← List.map_id (spread base own)]
  refine List.map_congr_left fun p hp => Prod.ext rfl ?_
  dsimp only [id]
  cases hown : own.lookup p.1 with
  | none => rfl
  | some v => exact (snd_of_mem_spread h hp hown).symm

/-- Spreading the same properties once more, and then a property that was there already, changes
nothing. -/
theorem spread_spread_one {own : JsonObject} (h : own.Distinct) (base : JsonObject) (k : String)
    (v : Json) :
    spread (spread (spread (spread base own) [(k, v)]) own) [(k, v)] =
      spread (spread base own) [(k, v)] := by
  have hone : Distinct [(k, v)] := List.nodup_singleton _
  generalize hm : spread (spread base own) [(k, v)] = merged
  have hkeys : ∀ p ∈ own, (merged.lookup p.1).isSome = true := by
    intro p hp
    rw [← hm, lookup_spread, Option.isSome_or, isSome_lookup_spread hp, Bool.or_true]
  have hkey : (merged.lookup k).isSome = true := by
    rw [← hm]
    exact isSome_lookup_spread (List.mem_singleton_self (k, v))
  rw [spread_eq_map hkeys, spread_eq_map fun p hp => ?_, List.map_map]
  · conv_rhs => rw [← List.map_id merged]
    refine List.map_congr_left fun p hp => Prod.ext rfl ?_
    dsimp only [id, Function.comp]
    rw [← hm] at hp
    cases hlast : List.lookup p.1 [(k, v)] with
    | some w => exact (snd_of_mem_spread hone hp hlast).symm
    | none =>
      cases hown : own.lookup p.1 with
      | none => rfl
      | some w =>
        -- the property comes from the first spread of them
        rcases List.mem_append.mp hp with hp | hp
        · obtain ⟨q, hq, rfl⟩ := List.mem_map.mp hp
          dsimp only at hlast hown ⊢
          rw [hlast]
          exact (snd_of_mem_spread h hq hown).symm
        · have hlookup := hone.lookup (List.mem_of_mem_filter hp)
          rw [hlast] at hlookup
          cases hlookup
  · obtain rfl := List.mem_singleton.mp hp
    rw [lookup_map merged fun k v => (own.lookup k).getD v, Option.isSome_map]
    exact hkey

end JsonObject

/-- The properties that spreading a value into an object literal contributes: the properties of an
object, the elements of an array or the characters of a string under their indices, and none of
the other values. -/
def Json.props : Json → JsonObject
  | .obj o => o
  | .arr items => items.zipIdx.map fun p => (p.2.repr, p.1)
  | .str s => s.toList.zipIdx.map fun p => (p.2.repr, .str p.1.toString)
  | _ => []

/-- The string that a value is, if it is one. -/
def Json.str? : Json → Option String
  | .str s => some s
  | _ => none

end Mastermind
