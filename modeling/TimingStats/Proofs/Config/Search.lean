import TimingStats.Config

/-! # Searching upwards

A search looks for a file at one place and at those above it. The nearest file decides, even if no
configuration can be read from it. So nothing that stands above, beside, or below the way from the
place up to that file makes a difference. -/

namespace TimingStats.Config

variable {α β : Type}

/-- What is seen at the places of a search, with an order of what stands above what. -/
structure Search (Above : α → α → Prop) where
  /-- Whether there is a file, or something else with its name. -/
  hasFile : α → Bool
  /-- What can be read from the file. -/
  config? : α → Option Config

/-- The places at and above any place stand in a line. -/
structure Line (Above : α → α → Prop) : Prop where
  refl : ∀ {d e}, Above d e → Above d d ∧ Above e e
  antisymm : ∀ {d e}, Above d e → Above e d → d = e
  linear : ∀ {start d e}, Above start d → Above start e → Above d e ∨ Above e d

namespace Search

variable {Above : α → α → Prop} {Above' : β → β → Prop} {s s' : Search Above} {u : Search Above'}
  {start next d e : α} {found other : Option Config}

/-- The nearest place with a file, of one place and those above it. -/
structure Nearest (s : Search Above) (start d : α) : Prop where
  above : Above start d
  hasFile : s.hasFile d = true
  nearest : ∀ e, Above start e → s.hasFile e = true → Above d e

/-- What a search from a place finds. -/
inductive Decided (s : Search Above) (start : α) : Option Config → Prop
  /-- The nearest file decides. If it gives no configuration, those above it stay hidden. -/
  | nearest {d : α} (h : s.Nearest start d) : Decided s start (s.config? d)
  /-- There is no file. -/
  | absent (h : ∀ d, Above start d → s.hasFile d = false) : Decided s start none

def SameUpward (s s' : Search Above) (start : α) : Prop :=
  ∀ e, Above start e → (∀ d, s.Nearest start d → Above e d) →
    s'.hasFile e = s.hasFile e ∧ s'.config? e = s.config? e

/-! ## One nearest file -/

theorem nearest_self (hself : Above start start) (h : s.hasFile start = true) :
    s.Nearest start start :=
  ⟨hself, h, fun _ habove _ => habove⟩

theorem Nearest.unique (line : Line Above) (hd : s.Nearest start d) (he : s.Nearest start e) :
    d = e :=
  line.antisymm (hd.nearest e he.above he.hasFile) (he.nearest d hd.above hd.hasFile)

theorem Nearest.not_absent (h : s.Nearest start d) :
    ¬ ∀ d, Above start d → s.hasFile d = false :=
  fun habsent => nomatch h.hasFile.symm.trans (habsent d h.above)

theorem Decided.unique (line : Line Above) (h : s.Decided start found)
    (h' : s.Decided start other) : found = other := by
  cases h with
  | nearest h =>
    cases h' with
    | nearest h' => exact congrArg s.config? (h.unique line h')
    | absent habsent => exact absurd habsent h.not_absent
  | absent habsent =>
    cases h' with
    | nearest h' => exact absurd habsent h'.not_absent
    | absent _ => rfl

/-! ## One step up -/

/-- A place without a file has the nearest file of the place above it. -/
theorem Decided.step (h : s.Decided next found)
    (hup : ∀ e, Above start e ↔ e = start ∨ Above next e) (hnone : s.hasFile start = false) :
    s.Decided start found := by
  cases h with
  | nearest h =>
    refine .nearest ⟨(hup _).mpr (.inr h.above), h.hasFile, fun e he hfile => ?_⟩
    rcases (hup e).mp he with rfl | he
    · exact nomatch hfile.symm.trans hnone
    · exact h.nearest e he hfile
  | absent habsent =>
    refine .absent fun d hd => ?_
    rcases (hup d).mp hd with rfl | hd
    · exact hnone
    · exact habsent d hd

/-! ## What makes no difference -/

theorem Nearest.congr (line : Line Above) (h : s.Nearest start d)
    (hsame : s.SameUpward s' start) : s'.Nearest start d ∧ s'.config? d = s.config? d := by
  have hbelow : ∀ {e}, Above e d → ∀ other, s.Nearest start other → Above e other :=
    fun he other hother => hother.unique line h ▸ he
  obtain ⟨hfile, hconfig⟩ := hsame d h.above (hbelow (line.refl h.above).2)
  refine ⟨⟨h.above, hfile.trans h.hasFile, fun e he hother => ?_⟩, hconfig⟩
  -- Above the nearest file nothing is known of the second search, and nothing is needed.
  rcases line.linear h.above he with hup | hdown
  · exact hup
  · have hsee := (hsame e he (hbelow hdown)).1
    exact h.nearest e he (hsee.symm.trans hother)

theorem Decided.congr (line : Line Above) (h : s.Decided start found)
    (hsame : s.SameUpward s' start) : s'.Decided start found := by
  cases h with
  | nearest h =>
    obtain ⟨hnearest, hconfig⟩ := h.congr line hsame
    exact hconfig ▸ .nearest hnearest
  | absent habsent =>
    refine .absent fun e he => ?_
    have hsee := (hsame e he fun d h => absurd habsent h.not_absent).1
    exact hsee.trans (habsent e he)

/-! ## The same search at other places -/

/-- A map of places keeps what stands above what, and what is seen there. -/
structure Carried (s : Search Above) (u : Search Above') (f : α → β) (start : α) : Prop where
  above : ∀ {d e}, Above start d → Above d e → Above' (f d) (f e)
  onto : ∀ {e}, Above' (f start) e → ∃ d, Above start d ∧ f d = e
  hasFile : ∀ {d}, Above start d → u.hasFile (f d) = s.hasFile d
  config? : ∀ {d}, Above start d → u.config? (f d) = s.config? d

theorem Decided.carried {f : α → β} (line : Line Above) (h : s.Decided start found)
    (hf : s.Carried u f start) : u.Decided (f start) found := by
  cases h with
  | @nearest d h =>
    rw [← hf.config? h.above]
    refine .nearest ⟨hf.above (line.refl h.above).1 h.above, (hf.hasFile h.above).trans h.hasFile,
      fun e he hfile => ?_⟩
    obtain ⟨e, hstart, rfl⟩ := hf.onto he
    exact hf.above h.above (h.nearest e hstart ((hf.hasFile hstart).symm.trans hfile))
  | absent habsent =>
    refine .absent fun e he => ?_
    obtain ⟨d, hd, rfl⟩ := hf.onto he
    exact (hf.hasFile hd).trans (habsent d hd)

end Search
end TimingStats.Config
