import Radrpc.Lib.Writes
import Mathlib.Data.List.Nodup

/-!
# Custom fields of a handshake

Client and server can add fields of their own to the handshake that they send. A decorator writes them to the default
handshake, one after the other: a field with an unknown name is inserted, and a field with a standard name is set, which
removes the fields with this name.

* `Fields` : what the decorators use of the fields of a handshake, `Fields.Lawful` : how these behave;
* `decorateRequest`, `decorateResponse` : the decorators of both ends;
* `Arrives` : every custom field is there, those with equal names in their order, and the other fields are the default ones;
* `custom_fields_arrive` : that is so if no standard name is used twice.
-/

namespace Radrpc

/-- The fields of a handshake are pairs of a name and a value. Some names have a standard field. -/
structure Fields (Handshake Field : Type) where
  pairs : Handshake → List (String × String)
  name : String → Option Field
  insert : Handshake → String → String → Handshake
  set : Handshake → Field → String → Handshake

def lower (s : String) : List Char := s.toList.map Char.toLower

def sameName (field : String × String) (s : String) : Bool := lower field.1 = lower s

/-- The values of the fields with a name, in their order. -/
def values (fields : List (String × String)) (s : String) : List String := Writes.written sameName Prod.snd fields s

namespace Fields
variable {Handshake Field : Type}

/-- `insert` appends a field; `set` removes the fields of its name and then adds one. Names with the same standard field
are equal but for their case. -/
structure Lawful (F : Fields Handshake Field) : Prop where
  same : ∀ {f a b}, F.name a = some f → (F.name b = some f ↔ lower b = lower a)
  values_insert : ∀ h a v s,
    values (F.pairs (F.insert h a v)) s = values (F.pairs h) s ++ if lower a = lower s then [v] else []
  values_set : ∀ h v {f s}, F.name s = some f → values (F.pairs (F.set h f v)) s = [v]
  values_set_other : ∀ h v {f s}, F.name s ≠ some f → values (F.pairs (F.set h f v)) s = values (F.pairs h) s

variable (F : Fields Handshake Field)

/-- The decorator that `on_ssl_handshake` of a client gives its stream. -/
def decorateRequest (req : Handshake) (setReq : List (String × String)) : Handshake :=
  setReq.foldl (fun req field =>
    match F.name field.1 with
    | none => F.insert req field.1 field.2
    | some name => F.set req name field.2) req

/-- The decorator that `on_read_handshake` of a server gives its stream. -/
def decorateResponse (res : Handshake) (setRes : List (String × String)) : Handshake :=
  setRes.foldl (fun res field =>
    match F.name field.1 with
    | none => F.insert res field.1 field.2
    | some name => F.set res name field.2) res

end Fields

/-- The custom fields have arrived in a handshake that was made from a default one. -/
structure Arrives (custom default sent : List (String × String)) : Prop where
  arrived : ∀ s, (values custom s).Sublist (values sent s)
  kept : ∀ s, values custom s = [] → values sent s = values default s

/-- The custom fields arrive from both ends, and both decorators do the same. -/
structure BothArrive {Handshake Field : Type} (F : Fields Handshake Field) (custom : List (String × String))
    (default : Handshake) : Prop where
  request : Arrives custom (F.pairs default) (F.pairs (F.decorateRequest default custom))
  response : Arrives custom (F.pairs default) (F.pairs (F.decorateResponse default custom))
  same : F.decorateRequest default custom = F.decorateResponse default custom

variable {Handshake Field : Type} {F : Fields Handshake Field}

theorem decorateRequest_eq (F : Fields Handshake Field) : F.decorateRequest = F.decorateResponse := rfl

/-- A field with an unknown name goes behind the others of its name, and one with a standard name in their place. -/
theorem writes_field (h : F.Lawful) :
    Writes (fun m s => values (F.pairs m) s)
      (fun m (field : String × String) =>
        match F.name field.1 with
        | none => F.insert m field.1 field.2
        | some name => F.set m name field.2)
      sameName Prod.snd (fun s => (F.name s).isNone) := by
  rintro m ⟨a, v⟩ s
  simp only [sameName, decide_eq_true_eq]
  cases ha : F.name a with
  | none =>
    simp only [h.values_insert]
    by_cases hs : lower a = lower s
    · have hnone : F.name s = none := by
        by_contra hne
        obtain ⟨f, hf⟩ := Option.ne_none_iff_exists'.mp hne
        cases ha.symm.trans ((h.same hf).mpr hs)
      rw [if_pos hs, if_pos hs, hnone, Option.isNone_none, if_pos rfl]
    · rw [if_neg hs, if_neg hs, List.append_nil]
  | some f =>
    by_cases hs : lower a = lower s
    · have hf : F.name s = some f := (h.same ha).mpr hs.symm
      rw [h.values_set m v hf, if_pos hs, hf, Option.isNone_some, if_neg Bool.false_ne_true, List.nil_append]
    · rw [h.values_set_other m v fun hf => hs ((h.same ha).mp hf).symm, if_neg hs]

theorem length_values (h : F.Lawful) [DecidableEq Field] (custom : List (String × String)) {s : String} {f : Field}
    (hs : F.name s = some f) :
    (values custom s).length = (custom.filterMap fun field => F.name field.1).count f := by
  rw [values, Writes.written, List.length_map, ← List.countP_eq_length_filter, List.count_filterMap]
  refine List.countP_congr fun field _ => ?_
  rw [sameName, decide_eq_true_eq, beq_iff_eq]
  exact (h.same hs).symm

theorem nodup_iff (h : F.Lawful) (custom : List (String × String)) :
    (custom.filterMap fun field => F.name field.1).Nodup ↔
      ∀ s, (F.name s).isNone = false → (values custom s).length ≤ 1 := by
  classical
  rw [List.nodup_iff_count_le_one]
  constructor
  · intro hcount s hs
    obtain ⟨f, hf⟩ := Option.isSome_iff_exists.mp (Option.isNone_eq_false_iff.mp hs)
    rw [length_values h custom hf]
    exact hcount f
  · intro hlen f
    by_cases hmem : f ∈ custom.filterMap fun field => F.name field.1
    · obtain ⟨field, -, hf⟩ := List.mem_filterMap.mp hmem
      rw [← length_values h custom hf]
      exact hlen field.1 (by rw [hf, Option.isNone_some])
    · rw [List.count_eq_zero_of_not_mem hmem]
      exact Nat.zero_le 1

theorem arrives_iff (h : F.Lawful) (custom : List (String × String)) (default : Handshake) :
    Arrives custom (F.pairs default) (F.pairs (F.decorateResponse default custom)) ↔
      (custom.filterMap fun field => F.name field.1).Nodup := by
  have hw := writes_field h
  rw [nodup_iff h]
  constructor
  · intro ha s
    exact (hw.sublist_foldl_iff s custom default).mp (ha.arrived s)
  · intro hlen
    exact ⟨fun s => (hw.sublist_foldl_iff s custom default).mpr (hlen s),
      fun s hs => hw.values_foldl_frame hs default⟩

/-- **Custom fields.** For all custom fields and every default handshake: every custom field arrives, those with equal
names in their order, and the other fields stay the default ones, from both ends, if and only if no two custom fields
have the same standard name. -/
theorem custom_fields_arrive (h : F.Lawful) (custom : List (String × String)) (default : Handshake) :
    BothArrive F custom default ↔ (custom.filterMap fun field => F.name field.1).Nodup := by
  constructor
  · intro ha
    exact (arrives_iff h custom default).mp ha.response
  · intro hnodup
    have ha := (arrives_iff h custom default).mpr hnodup
    exact ⟨(congrFun₂ (decorateRequest_eq F) default custom) ▸ ha, ha, rfl⟩

/-! ## Lists of pairs -/

inductive StandardField where
  | host
  | server
  | userAgent
  | setCookie
  deriving DecidableEq

def StandardField.toString : StandardField → String
  | .host => "Host"
  | .server => "Server"
  | .userAgent => "User-Agent"
  | .setCookie => "Set-Cookie"

def stringToField (s : String) : Option StandardField :=
  [.host, .server, .userAgent, .setCookie].find? fun f => lower f.toString = lower s

/-- A handshake that is a list of pairs, with some of the standard names. -/
def listFields : Fields (List (String × String)) StandardField where
  pairs h := h
  name := stringToField
  insert h a v := h ++ [(a, v)]
  set h f v := h.filter (fun field => stringToField field.1 ≠ some f) ++ [(f.toString, v)]

theorem lower_toString_inj {f g : StandardField} : lower f.toString = lower g.toString → f = g := by
  cases f <;> cases g <;> decide

theorem stringToField_iff {s : String} {f : StandardField} : stringToField s = some f ↔ lower f.toString = lower s := by
  constructor
  · intro hf
    simpa using List.find?_some hf
  · intro hs
    cases hf : stringToField s with
    | none => exact absurd hs (by simpa using List.find?_eq_none.mp hf f (by cases f <;> simp))
    | some g =>
      have hg : lower g.toString = lower s := by simpa using List.find?_some hf
      rw [lower_toString_inj (hg.trans hs.symm)]

theorem values_append (l l' : List (String × String)) (s : String) : values (l ++ l') s = values l s ++ values l' s :=
  Writes.written_append l l' s

theorem values_singleton (a v s : String) : values [(a, v)] s = if lower a = lower s then [v] else [] := by
  rw [values, Writes.written_cons, sameName]
  simp only [decide_eq_true_eq]
  rfl

theorem values_filter (keep : String × String → Bool) (l : List (String × String)) (s : String) :
    values (l.filter keep) s = ((l.filter fun field => sameName field s && keep field)).map Prod.snd := by
  rw [values, Writes.written, List.filter_filter]

theorem listFields_lawful : listFields.Lawful where
  same {f a b} ha := by
    rw [← stringToField_iff.mp ha]
    exact stringToField_iff.trans eq_comm
  values_insert h a v s := by
    rw [← values_singleton]
    exact values_append h [(a, v)] s
  values_set h v {f s} hs := by
    have hf := stringToField_iff.mp hs
    have hnone : values (h.filter fun field => stringToField field.1 ≠ some f) s = [] := by
      rw [values_filter, List.map_eq_nil_iff, List.filter_eq_nil_iff]
      intro field _ hkeep
      rw [Bool.and_eq_true, sameName, decide_eq_true_eq, decide_eq_true_eq] at hkeep
      exact hkeep.2 (stringToField_iff.mpr (hf.trans hkeep.1.symm))
    exact (values_append _ _ s).trans (by rw [hnone, values_singleton, if_pos hf, List.nil_append])
  values_set_other h v {f s} hs := by
    have hf : ¬ lower f.toString = lower s := fun he => hs (stringToField_iff.mpr he)
    have hkeep : values (h.filter fun field => stringToField field.1 ≠ some f) s = values h s := by
      rw [values_filter]
      refine congrArg _ (List.filter_congr fun field _ => ?_)
      by_cases hfield : lower field.1 = lower s
      · simp [sameName, hfield, stringToField_iff, hf]
      · simp [sameName, hfield]
    exact (values_append _ _ s).trans (by rw [hkeep, values_singleton, if_neg hf, List.append_nil]; rfl)

/-- The fields of a client that names itself and passes a key. -/
theorem custom_fields_arrive_key :
    BothArrive listFields [("user-agent", "radrpc-client"), ("key", "xxxxxxxxxx"), ("key", "yyyyyyyyyy")]
      [("Host", "127.0.0.1"), ("User-Agent", "Boost.Beast")] :=
  (custom_fields_arrive listFields_lawful _ _).mpr (by decide)

/-- Of two cookies only the second one is sent. -/
theorem custom_field_lost :
    ¬ BothArrive listFields [("Set-Cookie", "a=1"), ("Set-Cookie", "b=2")] [("Server", "Boost.Beast")] := by
  intro h
  exact absurd (h.response.arrived "Set-Cookie") (by decide)

end Radrpc
