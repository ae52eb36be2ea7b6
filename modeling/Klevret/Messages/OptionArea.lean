import Klevret.Messages.Header

/-! # The grammar of the option area

The option area is a sequence of padding bytes and options, up to its end or an
end mark. It may also hold an option that the constructor refuses. In both
cases every payload that is read lies inside the area. The loop of the parser is
shown to leave the buffer exactly on the areas of neither kind.
-/

namespace Klevret

open Foundation

namespace DhcpMessage

/-- A payload that belongs to a header: of the announced length, and made of whole elements. -/
structure Fits (code length : UInt8) (d : DhcpOptionDescription) (payload : List UInt8) : Prop where
  described : DhcpOption.describe code.toNat length.toNat = .ok d
  length_eq : payload.length = length.toNat
  whole : DhcpOption.WholeElements d payload.length

/-- The option of a header and a payload that fits it. -/
def optionOf (length : UInt8) (d : DhcpOptionDescription) (payload : List UInt8) : DhcpOption :=
  .ofValues d length.toNat (DhcpOption.payloadValues d payload)

/-- The area holds exactly these options. -/
inductive Lists : List UInt8 → List DhcpOption → Prop
  | nil : Lists [] []
  | pad {area : List UInt8} {options : List DhcpOption} :
      Lists area options → Lists (0 :: area) options
  | stop (area : List UInt8) : Lists (255 :: area) []
  | option {code length : UInt8} {d : DhcpOptionDescription} {payload area : List UInt8}
      {options : List DhcpOption} :
      Fits code length d payload → DhcpOption.payloadAllowed d payload = true →
      Lists area options →
      Lists (code :: length :: (payload ++ area)) (optionOf length d payload :: options)

/-- The area holds an option that is refused, and only options that fit before it. -/
inductive Refuses : List UInt8 → Prop
  | header {code length : UInt8} {e : Stop} (area : List UInt8) :
      code ≠ 0 → code ≠ 255 → DhcpOption.describe code.toNat length.toNat = .error e →
      Refuses (code :: length :: area)
  | payload {code length : UInt8} {d : DhcpOptionDescription} {payload : List UInt8}
      (area : List UInt8) :
      Fits code length d payload → DhcpOption.payloadAllowed d payload = false →
      Refuses (code :: length :: (payload ++ area))
  | pad {area : List UInt8} : Refuses area → Refuses (0 :: area)
  | option {code length : UInt8} {d : DhcpOptionDescription} {payload area : List UInt8} :
      Fits code length d payload → DhcpOption.payloadAllowed d payload = true → Refuses area →
      Refuses (code :: length :: (payload ++ area))

variable {code length : UInt8} {d : DhcpOptionDescription} {payload area data : List UInt8}
  {iter : ℕ} {options : List DhcpOption}

theorem code_of_describe (h : DhcpOption.describe code.toNat length.toNat = .ok d) :
    code ≠ 0 ∧ code ≠ 255 := by
  obtain ⟨h0, h255⟩ := DhcpOption.code_ne_of_describe h
  constructor
  · rintro rfl
    exact h0 rfl
  · rintro rfl
    exact h255 rfl

theorem length_of_drop {c : UInt8} (h : data.drop iter = c :: area) :
    data.length = iter + area.length + 1 ∧ data.drop (iter + 1) = area := by
  have hl := congrArg List.length h
  rw [List.length_drop, List.length_cons] at hl
  refine ⟨by omega, ?_⟩
  rw [← List.drop_drop, h]
  rfl

theorem deref_of_drop {c : UInt8} (h : data.drop iter = c :: area) : deref data iter = .ok c := by
  rw [deref_eq_ok]
  have hc : (data.drop iter)[0]? = some c := by rw [h]; rfl
  rwa [List.getElem?_drop, Nat.add_zero] at hc

theorem drop_of_fits (h : data.drop iter = code :: length :: (payload ++ area)) :
    iter + 2 + payload.length ≤ data.length ∧
      data.drop (iter + 2 + payload.length) = area := by
  obtain ⟨hl, h'⟩ := length_of_drop h
  obtain ⟨hl', hpay⟩ := length_of_drop h'
  rw [List.length_append] at hl'
  refine ⟨by omega, ?_⟩
  rw [← List.drop_drop, hpay]
  exact List.drop_left

variable [Host]

theorem optionPass_nil (hi : iter ≤ data.length) (h : data.drop iter = []) :
    optionPass data (iter, options) = .ok (.inr options) := by
  have he : iter = data.length := le_antisymm hi (List.drop_eq_nil_iff.mp h)
  simp [optionPass, he]

theorem optionPass_pad (h : data.drop iter = 0 :: area) :
    optionPass data (iter, options) = .ok (.inl (iter + 1, options)) := by
  obtain ⟨hl, _⟩ := length_of_drop h
  simp [optionPass, deref_of_drop h, advance_of_le (show iter + 1 ≤ data.length by omega),
    show iter ≠ data.length by omega]

theorem optionPass_stop (h : data.drop iter = 255 :: area) :
    optionPass data (iter, options) = .ok (.inr options) := by
  obtain ⟨hl, _⟩ := length_of_drop h
  simp [optionPass, deref_of_drop h, advance_of_le (show iter + 1 ≤ data.length by omega),
    show iter ≠ data.length by omega]

theorem optionPass_truncated (h : data.drop iter = [code]) (h0 : code ≠ 0) (h255 : code ≠ 255) :
    optionPass data (iter, options) = .error .undefined := by
  obtain ⟨hl, _⟩ := length_of_drop h
  simp only [List.length_nil] at hl
  simp [optionPass, deref_of_drop h, advance_of_le (show iter + 1 ≤ data.length by omega),
    show iter ≠ data.length by omega, h0, h255, deref_of_le (show data.length ≤ iter + 1 by omega)]

theorem optionPass_option (h : data.drop iter = code :: length :: area) (h0 : code ≠ 0)
    (h255 : code ≠ 255) :
    optionPass data (iter, options) = do
      let newOption ← DhcpOption.new code.toNat length.toNat data (iter + 2)
        (iter + 2 + length.toNat)
      let iter ← advance data (iter + 2) length.toNat
      return .inl (iter, options ++ [newOption]) := by
  obtain ⟨hl, h'⟩ := length_of_drop h
  obtain ⟨hl', _⟩ := length_of_drop h'
  simp [optionPass, deref_of_drop h, deref_of_drop h', h0, h255,
    advance_of_le (show iter + 1 ≤ data.length by omega),
    advance_of_le (show iter + 1 + 1 ≤ data.length by omega), show iter ≠ data.length by omega]

theorem optionPass_fits (h : data.drop iter = code :: length :: (payload ++ area))
    (hf : Fits code length d payload) :
    optionPass data (iter, options) =
      if DhcpOption.payloadAllowed d payload then
        .ok (.inl (iter + 2 + payload.length, options ++ [optionOf length d payload]))
      else throwRuntimeError (DhcpOption.payloadRefusal d) := by
  obtain ⟨h0, h255⟩ := code_of_describe hf.described
  obtain ⟨hl, h'⟩ := length_of_drop h
  obtain ⟨hl', hpay⟩ := length_of_drop h'
  rw [List.length_append] at hl'
  have hin : iter + 2 + length.toNat ≤ data.length := by
    have := hf.length_eq
    omega
  have hp : (data.drop (iter + 2)).take length.toNat = payload := by
    rw [show iter + 2 = iter + 1 + 1 from rfl, hpay, ← hf.length_eq]
    exact List.take_left
  have hw : DhcpOption.WholeElements d length.toNat := hf.length_eq ▸ hf.whole
  rw [optionPass_option h h0 h255, DhcpOption.new_inside hf.described hin hw, hp,
    DhcpOption.readPayload, advance_of_le hin, hf.length_eq]
  split_ifs <;> rfl

theorem optionPass_refused {e : Stop} (h : data.drop iter = code :: length :: area)
    (h0 : code ≠ 0) (h255 : code ≠ 255)
    (he : DhcpOption.describe code.toNat length.toNat = .error e) :
    optionPass data (iter, options) = .error e := by
  rw [optionPass_option h h0 h255, DhcpOption.new_refused he]
  rfl

theorem optionPass_overrun (h : data.drop iter = code :: length :: area)
    (hd : DhcpOption.describe code.toNat length.toNat = .ok d)
    (hout : ¬ (length.toNat ≤ area.length ∧ DhcpOption.WholeElements d length.toNat)) :
    optionPass data (iter, options) = .error .undefined := by
  obtain ⟨h0, h255⟩ := code_of_describe hd
  obtain ⟨hl, h'⟩ := length_of_drop h
  obtain ⟨hl', _⟩ := length_of_drop h'
  rw [optionPass_option h h0 h255, DhcpOption.new_outside hd (by omega)
    (fun hin => hout ⟨by omega, hin.2⟩)]
  rfl

theorem iterate_pad (h : data.drop iter = 0 :: area) (n : ℕ) :
    iterate (attempt (optionPass data)) (n + 1) (iter, options) =
      iterate (attempt (optionPass data)) n (iter + 1, options) := by
  apply iterate_next
  rw [attempt_eq_inl]
  exact optionPass_pad h

theorem iterate_option (h : data.drop iter = code :: length :: (payload ++ area))
    (hf : Fits code length d payload) (hallow : DhcpOption.payloadAllowed d payload = true)
    (n : ℕ) :
    iterate (attempt (optionPass data)) (n + 1) (iter, options) =
      iterate (attempt (optionPass data)) n
        (iter + 2 + payload.length, options ++ [optionOf length d payload]) := by
  apply iterate_next
  rw [attempt_eq_inl, optionPass_fits h hf, if_pos hallow]

/-- The loop reads the options that the area holds. -/
theorem Lists.iterate {os : List DhcpOption} (h : Lists area os) {n : ℕ}
    (ha : data.drop iter = area) (hi : iter ≤ data.length) (hn : area.length < n) :
    iterate (attempt (optionPass data)) n (iter, options) = some (.ok (options ++ os)) := by
  induction h generalizing iter options n with
  | nil =>
    obtain ⟨n, rfl⟩ : ∃ m, n = m + 1 := ⟨n - 1, by omega⟩
    rw [iterate_exit (attempt_exit (optionPass_nil hi ha)), List.append_nil]
  | pad _ ih =>
    obtain ⟨n, rfl⟩ : ∃ m, n = m + 1 := ⟨n - 1, by omega⟩
    obtain ⟨hl, hrest⟩ := length_of_drop ha
    rw [List.length_cons] at hn
    rw [iterate_pad ha]
    exact ih hrest (by omega) (by omega)
  | stop area =>
    obtain ⟨n, rfl⟩ : ∃ m, n = m + 1 := ⟨n - 1, by omega⟩
    rw [iterate_exit (attempt_exit (optionPass_stop ha)), List.append_nil]
  | @option code length d payload area os hf hallow _ ih =>
    obtain ⟨n, rfl⟩ : ∃ m, n = m + 1 := ⟨n - 1, by omega⟩
    obtain ⟨hle, hrest⟩ := drop_of_fits ha
    simp only [List.length_cons, List.length_append] at hn
    rw [iterate_option ha hf hallow, ih hrest hle (by omega), List.append_assoc,
      List.singleton_append]

/-- The loop ends in an exception on an area with a refused option. -/
theorem Refuses.iterate (h : Refuses area) {n : ℕ} (ha : data.drop iter = area)
    (hi : iter ≤ data.length) (hn : area.length < n) :
    ∃ x, iterate (attempt (optionPass data)) n (iter, options) = some (.error (.throws x)) := by
  induction h generalizing iter options n with
  | header area h0 h255 he =>
    obtain ⟨n, rfl⟩ : ∃ m, n = m + 1 := ⟨n - 1, by omega⟩
    obtain ⟨x, rfl⟩ := DhcpOption.describe_eq_error he
    exact ⟨x, iterate_exit (attempt_stop (optionPass_refused ha h0 h255 he))⟩
  | @payload code length d payload area hf hrefuse =>
    obtain ⟨n, rfl⟩ : ∃ m, n = m + 1 := ⟨n - 1, by omega⟩
    have hp : optionPass data (iter, options) = _ := optionPass_fits ha hf
    rw [if_neg (by simp [hrefuse])] at hp
    exact ⟨_, iterate_exit (attempt_stop hp)⟩
  | pad _ ih =>
    obtain ⟨n, rfl⟩ : ∃ m, n = m + 1 := ⟨n - 1, by omega⟩
    obtain ⟨hl, hrest⟩ := length_of_drop ha
    rw [List.length_cons] at hn
    rw [iterate_pad ha]
    exact ih hrest (by omega) (by omega)
  | @option code length d payload area hf hallow _ ih =>
    obtain ⟨n, rfl⟩ : ∃ m, n = m + 1 := ⟨n - 1, by omega⟩
    obtain ⟨hle, hrest⟩ := drop_of_fits ha
    simp only [List.length_cons, List.length_append] at hn
    rw [iterate_option ha hf hallow]
    exact ih hrest hle (by omega)

/-- Every other area takes the loop out of the buffer. -/
theorem iterate_optionPass (data : List UInt8) (n : ℕ) (iter : ℕ) (options : List DhcpOption)
    (hi : iter ≤ data.length) (hn : (data.drop iter).length < n) :
    (∃ os, Lists (data.drop iter) os) ∨ Refuses (data.drop iter) ∨
      iterate (attempt (optionPass data)) n (iter, options) = some (.error .undefined) := by
  induction n generalizing iter options with
  | zero => omega
  | succ n ih =>
    cases ha : data.drop iter with
    | nil => exact Or.inl ⟨[], .nil⟩
    | cons code rest =>
      obtain ⟨hl, hrest⟩ := length_of_drop ha
      rw [ha, List.length_cons] at hn
      by_cases h0 : code = 0
      · subst h0
        rcases ih (iter + 1) options (by omega) (by rw [hrest]; omega) with ⟨os, h⟩ | h | h
        · exact Or.inl ⟨os, .pad (hrest ▸ h)⟩
        · exact Or.inr (Or.inl (.pad (hrest ▸ h)))
        · rw [iterate_pad ha]
          exact Or.inr (Or.inr h)
      by_cases h255 : code = 255
      · subst h255
        exact Or.inl ⟨[], .stop rest⟩
      cases rest with
      | nil =>
        exact Or.inr (Or.inr (iterate_exit (attempt_stop (optionPass_truncated ha h0 h255))))
      | cons length area =>
        cases hd : DhcpOption.describe code.toNat length.toNat with
        | error e => exact Or.inr (Or.inl (.header area h0 h255 hd))
        | ok d =>
          by_cases hin : length.toNat ≤ area.length ∧ DhcpOption.WholeElements d length.toNat
          · obtain ⟨payload, tail, hsplit, hlen⟩ :
                ∃ payload tail, area = payload ++ tail ∧ payload.length = length.toNat :=
              ⟨area.take length.toNat, area.drop length.toNat,
                (List.take_append_drop _ _).symm, List.length_take_of_le hin.1⟩
            subst hsplit
            have hf : Fits code length d payload := ⟨hd, hlen, hlen ▸ hin.2⟩
            cases hallow : DhcpOption.payloadAllowed d payload with
            | false => exact Or.inr (Or.inl (.payload tail hf hallow))
            | true =>
              obtain ⟨hle, htail⟩ := drop_of_fits ha
              rw [List.length_cons, List.length_append] at hn
              rcases ih _ (options ++ [optionOf length d payload]) hle
                (by rw [htail]; omega) with ⟨os, h⟩ | h | h
              · exact Or.inl ⟨_, .option hf hallow (htail ▸ h)⟩
              · exact Or.inr (Or.inl (.option hf hallow (htail ▸ h)))
              · rw [iterate_option ha hf hallow]
                exact Or.inr (Or.inr h)
          · exact Or.inr (Or.inr (iterate_exit (attempt_stop (optionPass_overrun ha hd hin))))

end DhcpMessage

end Klevret
