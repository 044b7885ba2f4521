/-
Names in what is read. A text may give a name of an object more than once; the value that is read
never does, in any of its objects (`NamedOnce`). The reader builds objects by `setMember` alone, so
the names that stand in the frames and in the place are distinct at all times, and the values
already complete are named once; every step keeps that (`State.NamedOnce.step`), and hence so does
the reading of a whole text (`namedOnce_of_read`).
-/

import TableCalc.Json.Reader

namespace TableCalc

-- ================================================================ outcomes

section Outcomes

variable {ε ε' α β : Type} {x : Except ε α}

theorem bind_eq_ok {f : α → Except ε β} {b : β} :
    x.bind f = .ok b ↔ ∃ a, x = .ok a ∧ f a = .ok b := by
  cases x with
  | error e => exact ⟨nofun, nofun⟩
  | ok a =>
      constructor
      · intro h
        exact ⟨a, rfl, h⟩
      · rintro ⟨_, ⟨⟩, h⟩
        exact h

theorem map_eq_ok {f : α → β} {b : β} : x.map f = .ok b ↔ ∃ a, x = .ok a ∧ f a = b := by
  cases x with
  | error e => exact ⟨nofun, nofun⟩
  | ok a =>
      constructor
      · rintro ⟨⟩
        exact ⟨a, rfl, rfl⟩
      · rintro ⟨_, ⟨⟩, rfl⟩
        rfl

theorem mapError_eq_ok {f : ε → ε'} {a : α} : x.mapError f = .ok a ↔ x = .ok a := by
  cases x with
  | error e => exact ⟨nofun, nofun⟩
  | ok b =>
      constructor
      · rintro ⟨⟩
        rfl
      · rintro ⟨⟩
        rfl

end Outcomes

namespace Json

variable {members : List (String × Json)} {v : Json} {c : Char} {stack : List Frame} {s s' : State}

-- ================================================================== values

/-- Each object in the value, the value itself included, has each of its names once. -/
inductive NamedOnce : Json → Prop where
  | null : NamedOnce .null
  | bool (b : Bool) : NamedOnce (.bool b)
  | number (n : Json.Number) : NamedOnce (.number n)
  | string (s : String) : NamedOnce (.string s)
  | array {items : List Json} (values : ∀ v ∈ items, NamedOnce v) : NamedOnce (.array items)
  | object {members : List (String × Json)} (names : (members.map (·.1)).Nodup)
      (values : ∀ m ∈ members, NamedOnce m.2) : NamedOnce (.object members)

theorem NamedOnce.nodup (h : (Json.object members).NamedOnce) : (members.map (·.1)).Nodup := by
  cases h with
  | object names => exact names

/-- Members that an object may have. -/
structure MembersOnce (members : List (String × Json)) : Prop where
  names : (members.map (·.1)).Nodup
  values : ∀ m ∈ members, m.2.NamedOnce

theorem membersOnce_nil : MembersOnce [] where
  names := List.nodup_nil
  values := nofun

/-- Setting a member adds its name at the end, if it is not there already. -/
theorem map_fst_setMember (members : List (String × Json)) (name : String) (v : Json) :
    (setMember members name v).map (·.1) =
      if name ∈ members.map (·.1) then members.map (·.1) else members.map (·.1) ++ [name] := by
  have hany : members.any (·.1 == name) = true ↔ name ∈ members.map (·.1) := by
    simp [List.any_eq_true]
  unfold setMember
  by_cases hname : name ∈ members.map (·.1)
  · rw [if_pos (hany.mpr hname), if_pos hname, List.map_map]
    apply List.map_congr_left
    intro m _
    by_cases hm : m.1 = name
    · simp [hm]
    · simp [hm]
  · rw [if_neg (mt hany.mp hname), if_neg hname, List.map_append]
    rfl

theorem mem_setMember {name : String} {m : String × Json} (hm : m ∈ setMember members name v) :
    m ∈ members ∨ m = (name, v) := by
  unfold setMember at hm
  split at hm
  · obtain ⟨m', hm', rfl⟩ := List.mem_map.mp hm
    split
    · exact .inr rfl
    · exact .inl hm'
  · exact (List.mem_append.mp hm).imp_right List.mem_singleton.mp

theorem MembersOnce.set (h : MembersOnce members) (name : String) (hv : v.NamedOnce) :
    MembersOnce (setMember members name v) where
  names := by
    rw [map_fst_setMember]
    split
    · exact h.names
    case isFalse hname =>
      refine List.nodup_append.mpr ⟨h.names, List.pairwise_singleton _ name, ?_⟩
      rintro a ha b hb rfl
      exact hname (List.mem_singleton.mp hb ▸ ha)
  values := by
    intro m hm
    rcases mem_setMember hm with hm | rfl
    · exact h.values m hm
    · exact hv

-- ================================================================== states

/-- The invariant of what an open container holds. -/
def Frame.NamedOnce : Frame → Prop
  | .array items => ∀ v ∈ items, v.NamedOnce
  | .object members _ => MembersOnce members

/-- The invariant of what a place holds. -/
def Place.NamedOnce : Place → Prop
  | .value | .firstItem | .string _ | .numeral _ => True
  | .afterItem items => ∀ v ∈ items, v.NamedOnce
  | .name members _ | .colon members _ | .afterMember members | .nameString members _ =>
    MembersOnce members
  | .word _ v | .done v => v.NamedOnce

structure State.NamedOnce (s : State) : Prop where
  place : s.place.NamedOnce
  stack : ∀ f ∈ s.stack, f.NamedOnce

/-- A complete value goes into the container around it, which keeps its names distinct. -/
theorem namedOnce_complete (hv : v.NamedOnce) (hstack : ∀ f ∈ stack, f.NamedOnce) :
    (complete v stack).NamedOnce := by
  cases stack with
  | nil => exact ⟨hv, nofun⟩
  | cons f stack =>
      obtain ⟨hf, hrest⟩ := List.forall_mem_cons.mp hstack
      cases f with
      | array items => exact ⟨List.forall_mem_cons.mpr ⟨hv, hf⟩, hrest⟩
      | object members name => exact ⟨MembersOnce.set hf name hv, hrest⟩

theorem namedOnce_startValue (hstack : ∀ f ∈ stack, f.NamedOnce)
    (h : startValue stack c = .ok s) : s.NamedOnce := by
  unfold startValue at h
  split at h
  · cases h
    exact ⟨trivial, hstack⟩
  · split at h
    · cases h
      exact ⟨trivial, hstack⟩
    · split at h
      · cases h
        exact ⟨trivial, hstack⟩
      · cases h
    · split at h
      · cases h
        exact ⟨membersOnce_nil, hstack⟩
      · cases h
    · cases h
      exact ⟨.null, hstack⟩
    · cases h
      exact ⟨.bool true, hstack⟩
    · cases h
      exact ⟨.bool false, hstack⟩
    · cases h

theorem State.NamedOnce.stepBetween (hs : s.NamedOnce) (h : Json.stepBetween s c = .ok s') :
    s'.NamedOnce := by
  obtain ⟨place, stack⟩ := s
  obtain ⟨hplace, hstack⟩ := hs
  unfold Json.stepBetween at h
  split at h
  · cases h
    exact ⟨hplace, hstack⟩
  · cases place with
    | value => exact namedOnce_startValue hstack h
    | firstItem =>
        dsimp only at h
        split at h
        · cases h
          exact namedOnce_complete (.array nofun) hstack
        · have hopen : (Frame.array []).NamedOnce := fun _ hv => absurd hv List.not_mem_nil
          exact namedOnce_startValue (List.forall_mem_cons.mpr ⟨hopen, hstack⟩) h
    | afterItem items =>
        dsimp only at h
        split at h
        · cases h
          exact ⟨trivial, List.forall_mem_cons.mpr ⟨hplace, hstack⟩⟩
        · split at h
          · cases h
            exact namedOnce_complete
              (.array fun v hv => hplace v (List.mem_reverse.mp hv)) hstack
          · cases h
    | name members mayClose =>
        dsimp only at h
        split at h
        · cases h
          exact ⟨hplace, hstack⟩
        · split at h
          · cases h
            exact namedOnce_complete (.object hplace.names hplace.values) hstack
          · cases h
    | colon members name =>
        dsimp only at h
        split at h
        · cases h
          exact ⟨trivial, List.forall_mem_cons.mpr ⟨hplace, hstack⟩⟩
        · cases h
    | afterMember members =>
        dsimp only at h
        split at h
        · cases h
          exact ⟨hplace, hstack⟩
        · split at h
          · cases h
            exact namedOnce_complete (.object hplace.names hplace.values) hstack
          · cases h
    | _ => cases h

theorem namedOnce_endNumeral {n : PartialNumeral} (hstack : ∀ f ∈ stack, f.NamedOnce)
    (h : endNumeral n stack = .ok s) : s.NamedOnce := by
  unfold endNumeral at h
  split at h
  · split at h
    · cases h
      exact namedOnce_complete (.number _) hstack
    · cases h
  · cases h

/-- Whatever character comes next, the invariant is kept. -/
theorem State.NamedOnce.step (hs : s.NamedOnce) (h : Json.step s c = .ok s') : s'.NamedOnce := by
  have hplace := hs.place
  unfold Json.step at h
  split at h
  case h_1 p hp =>
    split at h
    · cases h
      exact namedOnce_complete (.string _) hs.stack
    · obtain ⟨p, -, rfl⟩ := map_eq_ok.mp h
      exact ⟨trivial, hs.stack⟩
  case h_2 members p hp =>
    rw [hp] at hplace
    split at h
    · cases h
      exact ⟨hplace, hs.stack⟩
    · obtain ⟨p, -, rfl⟩ := map_eq_ok.mp h
      exact ⟨hplace, hs.stack⟩
  case h_3 rest v hp =>
    rw [hp] at hplace
    split at h
    · cases h
    · split at h
      · cases h
        exact namedOnce_complete hplace hs.stack
      · cases h
    · split at h
      · cases h
        exact ⟨hplace, hs.stack⟩
      · cases h
  case h_4 n hp =>
    split at h
    · cases h
      exact ⟨trivial, hs.stack⟩
    · -- the numeral ends here, and the character is read again after it
      obtain ⟨ended, hend, h⟩ := bind_eq_ok.mp h
      exact (namedOnce_endNumeral hs.stack hend).stepBetween h
  case h_5 => exact hs.stepBetween h

-- ==================================================================== runs

theorem State.NamedOnce.run {text : List Char} (hs : s.NamedOnce)
    (h : text.foldlM Json.step s = .ok s') : s'.NamedOnce := by
  induction text generalizing s with
  | nil =>
      cases h
      exact hs
  | cons c text ih =>
      rw [List.foldlM_cons] at h
      obtain ⟨next, hstep, h⟩ := bind_eq_ok.mp h
      exact ih (hs.step hstep) h

theorem State.NamedOnce.finish (hs : s.NamedOnce) (h : Json.finish s = .ok v) : v.NamedOnce := by
  have hplace := hs.place
  unfold Json.finish at h
  split at h
  case h_1 _ hp =>
    cases h
    rwa [hp] at hplace
  case h_2 =>
    split at h
    · split at h
      · cases h
      · cases h
        exact .number _
      · cases h
    · cases h
  case h_3 => cases h

/-- A value that has been read has each name once in each of its objects. -/
theorem namedOnce_of_read {text : List Char} (h : read text = .ok v) : v.NamedOnce := by
  have hstart : State.NamedOnce {} := ⟨trivial, nofun⟩
  obtain ⟨s, hrun, hfinish⟩ := bind_eq_ok.mp h
  exact (hstart.run hrun).finish hfinish

end Json

end TableCalc
