import DropboxMirror.Proof.SessionWalk

/-!
# What a walk adopts

The workers of a walk rewrite their copies of the session. At each rescue, and at its end, the
walk goes on with the copy written last (`walk_adopts`): the session directory and the bucket
have it then, and after a rescue every worker has it too.
-/

namespace DropboxMirror

open Text Crash Copies

variable {β δ : Type} [DecidableEq β] [DecidableEq δ] {n : ℕ} {U : Unicode} {cfg : WalkConfig}
  {snapshotId : ℕ} {identity : Str} {digest : β → δ} {s t : SessionSystem β δ} {c₀ : β}
  {log full : List (Touch n β)} {rescues : ℕ}

/-- The session file has the session whose write-back was answered last. -/
structure SessionSettled (digest : β → δ) (s : SessionSystem β δ) : Prop where
  kept : SessionKept digest s
  since : s.since = []
  main : ∃ f, s.world.session.get? sessionFile = some f ∧ f.content = s.answered

omit [DecidableEq β] [DecidableEq δ] in
theorem SessionSettled.moved (h : SessionSettled digest s) (copies : List (Option (Copy β))) (now : ℕ) :
    SessionSettled digest { s with copies, now } :=
  ⟨h.kept.moved copies now, h.since, h.main⟩

/-- A walk between two turns, which began with `c₀`: `log` is what its workers did, in the
rounds before each rescue and since the last one. -/
structure Underway (digest : β → δ) (c₀ : β) (log : List (Touch n β)) (rescues : ℕ)
    (s : SessionSystem β δ) : Prop where
  settled : SessionSettled digest s
  few : rescues ≤ 3
  adopted : ∃ rounds us now stamp, rounds.flatten ++ us = log ∧ rounds.length = rescues ∧
    Adoptions rounds c₀ s.answered ∧ stamp < now ∧ s.now = now + elapsed us ∧
    s.copies = touched now (List.replicate n (some ⟨s.answered, stamp⟩)) us

/-- A walk at any commit: the session file has the session adopted last, and the bucket that
one or the one before. -/
structure Adopting (c₀ : β) (log : List (Touch n β)) (s : SessionSystem β δ) : Prop where
  held : SessionHeld s
  adopted : ∃ rounds f, rounds.flatten <+: log ∧ Adoptions rounds c₀ f.content ∧
    s.world.session.get? sessionFile = some f ∧
    ((s.answered = f.content ∧ s.since = []) ∨
      ∃ earlier us, rounds = earlier ++ [us] ∧ Adoptions earlier c₀ s.answered ∧ s.since = [f.content])

/-- The session to go on with. -/
def SessionSystem.choice (s : SessionSystem β δ) : β :=
  ((newest s.copies).map Copy.content).getD s.answered

omit [DecidableEq δ] in
/-- What a promotion does. -/
theorem promote_cases {f : Copy β} (hf : s.world.session.get? sessionFile = some f)
    (hanswered : f.content = s.answered) :
    ((promote s.now s.copies s.world.session).1 = false ∧ s.choice = s.answered) ∨
      ((promote s.now s.copies s.world.session).1 = true ∧
        (promote s.now s.copies s.world.session).2 =
          s.world.session.set sessionFile ⟨s.choice, s.now⟩) := by
  unfold promote SessionSystem.choice
  cases hnew : newest s.copies with
  | none => exact Or.inl ⟨rfl, rfl⟩
  | some x =>
    simp only [hf, Option.map_some, Option.getD_some, Option.some.injEq]
    split
    · rename_i hsame
      exact Or.inl ⟨rfl, hsame.symm.trans hanswered⟩
    · exact Or.inr ⟨rfl, rfl⟩

omit [DecidableEq β] [DecidableEq δ] in
/-- Each worker has a copy. -/
theorem Underway.length_copies (h : Underway digest c₀ log rescues s) : s.copies.length = n := by
  obtain ⟨_, us, now, stamp, -, -, -, -, -, hcopies⟩ := h.adopted
  rw [hcopies, length_touched, List.length_replicate]

omit [DecidableEq β] [DecidableEq δ] in
/-- The rounds of a walk that adopts the choice. -/
theorem Underway.next (h : Underway digest c₀ log rescues s) :
    ∃ earlier us, (earlier ++ [us]).flatten = log ∧ earlier.length = rescues ∧
      Adoptions earlier c₀ s.answered ∧ Adoptions (earlier ++ [us]) c₀ s.choice := by
  obtain ⟨rounds, us, now, stamp, hlog, hlen, hrounds, hstamp, -, hcopies⟩ := h.adopted
  refine ⟨rounds, us, by simp [hlog], hlen, hrounds, hrounds.adopt ?_⟩
  rw [SessionSystem.choice, hcopies]
  exact adopts_newest hstamp us

omit [DecidableEq β] [DecidableEq δ] in
theorem SessionSettled.adopting (h : SessionSettled digest s) {rounds : List (List (Touch n β))}
    (hrounds : Adoptions rounds c₀ s.answered) (hpre : rounds.flatten <+: full) : Adopting c₀ full s := by
  obtain ⟨f, hf, hanswered⟩ := h.main
  exact ⟨h.kept.toSessionHeld, rounds, f, hpre, by rwa [hanswered], hf, Or.inl ⟨hanswered.symm, h.since⟩⟩

omit [DecidableEq β] [DecidableEq δ] in
theorem Underway.adopting (h : Underway digest c₀ log rescues s) (hpre : log <+: full) :
    Adopting c₀ full s := by
  obtain ⟨rounds, us, -, -, hlog, -, hrounds, -⟩ := h.adopted
  exact h.settled.adopting hrounds (List.IsPrefix.trans ⟨us, hlog⟩ hpre)

/-- What is left of a walk's sessions once the choice of `s` is adopted. -/
structure Adopted (digest : β → δ) (s t : SessionSystem β δ) : Prop where
  settled : SessionSettled digest t
  answered : t.answered = s.choice
  copies : t.copies = s.copies

/-- **The choice is adopted**: the session file has it, and then the bucket. -/
theorem Underway.adopt (hinj : Function.Injective digest) (h : Underway digest c₀ log rescues s)
    (hpre : log <+: full) (identity : Str) (env : BundleEnv) :
    Triple (fun _ t => Adopting c₀ full t) (fun t => t = s) promoteCopies
        (fun b t => t.copies = s.copies ∧
          Triple (fun _ u => Adopting c₀ full u) (fun u => u = t)
            (if b = true then afterCall identity digest env else pure ())
            (fun _ u => Adopted digest s u) (fun _ u => Adopting c₀ full u))
        (fun _ _ => False) := by
  obtain ⟨f, hf, hanswered⟩ := h.settled.main
  obtain ⟨earlier, us, hlog, -, hearlier, hchoice⟩ := h.next
  have hflat : (earlier ++ [us]).flatten <+: full := by rwa [hlog]
  rcases promote_cases hf hanswered with ⟨hno, hsame⟩ | ⟨hyes, hdir⟩
  · refine promoteCopies_triple (fun hyes => ?_) fun _ => ⟨rfl, ?_⟩
    · rw [hno] at hyes
      cases hyes
    · exact Triple.pure fun u hu => by rw [hu]; exact ⟨h.settled, hsame.symm, rfl⟩
  refine promoteCopies_triple (fun _ => ?_) fun hno => ?_
  · have hkept := h.settled.kept.promoted
    have hfile : s.promoted.world.session.get? sessionFile = some ⟨s.choice, s.now⟩ := by
      change (promote s.now s.copies s.world.session).2.get? sessionFile = _
      rw [hdir, Dict.get?_set, if_pos rfl]
    have hsince : s.promoted.since = [s.choice] := by
      have : s.promoted.since =
          s.since ++ ((s.promoted.world.session.get? sessionFile).map Copy.content).toList := rfl
      rw [this, hfile, h.settled.since]
      rfl
    -- between the promotion and the answer
    have hhalf : ∀ u : SessionSystem β δ, SessionHeld u →
        u.world.session.get? sessionFile = some ⟨s.choice, s.now⟩ →
        (u.answered = s.choice ∧ u.since = []) ∨ (u.answered = s.answered ∧ u.since = [s.choice]) →
        Adopting c₀ full u := fun u hheld hu hledger =>
      ⟨hheld, _, _, hflat, hchoice, hu,
        hledger.imp_right fun ⟨h1, h2⟩ => ⟨earlier, us, rfl, by rwa [h1], h2⟩⟩
    refine ⟨hhalf _ hkept.toSessionHeld hfile (Or.inr ⟨rfl, hsince⟩), rfl, ?_⟩
    rw [if_pos rfl]
    have hrest : ∀ u, SessionHeld u → SameFiles s.promoted u → Adopting c₀ full u := by
      intro u hheld hu
      refine hhalf u hheld (by rw [hu.session, hfile]) ?_
      rcases hu.answered with ⟨h1, h2⟩ | ⟨g, hg, h1, h2⟩
      · exact Or.inr ⟨h1, h2.trans hsince⟩
      · rw [hfile, Option.some.injEq] at hg
        exact Or.inl ⟨by rw [h1, ← hg], h2⟩
    refine ((afterCall_triple hinj hkept env).mono fun _ u hu => hrest u hu.1 hu.2).consequence
      (fun _ h => h) (fun _ u hu => ?_) fun _ u hu => hrest u hu.1 hu.2.1
    obtain ⟨hdone, hfiles, hledger⟩ := hu
    obtain ⟨h1, h2⟩ := hledger _ hfile
    exact ⟨⟨hdone, h2, _, by rw [hfiles.session, hfile], h1.symm⟩, h1, hfiles.copies⟩
  · rw [hno] at hyes
    cases hyes

/-- **A rescue**: every worker has the session that was adopted. -/
theorem Underway.rescue (hinj : Function.Injective digest) (hpre : log <+: full) (hfew : rescues < 3)
    (env : BundleEnv) :
    Triple (fun _ t => Adopting c₀ full t) (Underway digest c₀ log rescues)
      (rescueSessions identity digest env) (fun _ => Underway digest c₀ log (rescues + 1))
      (fun _ => Adopting c₀ full) := by
  refine Triple.pre fun s hs => ?_
  obtain ⟨earlier, us, hlog, hlen, -, hchoice⟩ := hs.next
  have hseed : Triple (fun _ t => Adopting c₀ full t) (Adopted digest s)
      (Prog.write fun s : SessionSystem β δ =>
        { s with now := s.now + 1, copies := reseed s.now s.copies s.world.session })
      (fun _ => Underway digest c₀ log (rescues + 1)) (fun (_ : SessionError) => Adopting c₀ full) := by
    refine Triple.write fun t ht => ?_
    obtain ⟨hsettled, hsame, hcopies⟩ := ht
    obtain ⟨f, hf, hanswered⟩ := hsettled.main
    have hcopies' : reseed t.now t.copies t.world.session =
        List.replicate n (some ⟨t.answered, t.now⟩) := by
      unfold reseed
      rw [hf, hcopies]
      dsimp only
      rw [hanswered, List.map_const', hs.length_copies]
    have hunder : Underway digest c₀ log (rescues + 1)
        { t with now := t.now + 1, copies := reseed t.now t.copies t.world.session } :=
      ⟨hsettled.moved _ _, hfew, earlier ++ [us], [], t.now + 1, t.now,
        by rw [List.append_nil, hlog], by simp [hlen], by rw [hsame]; exact hchoice,
        Nat.lt_succ_self _, rfl, hcopies'⟩
    exact ⟨hunder.adopting hpre, hunder⟩
  unfold rescueSessions
  refine ((hs.adopt hinj hpre identity env).consequence (fun _ h => h) (fun _ _ h => h)
    fun _ _ h => h.elim).bind fun adopted => Triple.pre fun t ht => ?_
  have hsettle := ht.2
  cases adopted with
  | false => exact (hsettle.bind fun _ => hseed)
  | true => exact (hsettle.bind fun _ => hseed)

omit [DecidableEq β] [DecidableEq δ] in
/-- The listings of a turn. -/
theorem Underway.listing (hn : 0 < n) (h : Underway digest c₀ log rescues s) (us : List (Touch n β)) :
    Underway digest c₀ (log ++ us) rescues (s.listing us) := by
  have hne : s.copies ≠ [] := List.ne_nil_of_length_pos (by rwa [h.length_copies])
  obtain ⟨hsettled, hfew, rounds, vs, now, stamp, hlog, hlen, hrounds, hstamp, hnow, hcopies⟩ := h
  have hlisting :
      s.listing us = { s with copies := touched s.now s.copies us, now := s.now + elapsed us } := by
    unfold SessionSystem.listing
    split
    · rename_i hnil
      exact absurd hnil hne
    · rfl
  rw [hlisting]
  refine ⟨hsettled.moved _ _, hfew, rounds, vs ++ us, now, stamp, ?_, hlen, hrounds, hstamp, ?_, ?_⟩
  · rw [← List.append_assoc, hlog]
  · dsimp only
    rw [hnow, elapsed_append, Nat.add_assoc]
  · dsimp only
    rw [touched_append, ← hnow, ← hcopies]

omit [DecidableEq β] [DecidableEq δ] in
theorem SessionSettled.sealed (h : SessionSettled digest s) : s.world.sealed = some s.answered := by
  obtain ⟨c, hc, hsealed⟩ := h.kept.sealed
  rw [h.since, List.mem_singleton] at hc
  rw [hsealed, hc]

omit [DecidableEq β] [DecidableEq δ] in
/-- The session of the directory, and the bucket, at any commit of a walk. -/
theorem Adopting.sealed (h : Adopting c₀ log s) :
    ∃ rounds c, rounds.flatten <+: log ∧ Adoptions rounds c₀ c ∧
      (s.world.session.get? sessionFile).map Copy.content = some c ∧
      (s.world.sealed = some c ∨
        ∃ earlier us b, rounds = earlier ++ [us] ∧ Adoptions earlier c₀ b ∧ s.world.sealed = some b) := by
  obtain ⟨rounds, f, hpre, hrounds, hf, hledger⟩ := h.adopted
  obtain ⟨c, hc, hsealed⟩ := h.held.sealed
  refine ⟨rounds, f.content, hpre, hrounds, by rw [hf]; rfl, ?_⟩
  rcases hledger with ⟨hanswered, hsince⟩ | ⟨earlier, us, heq, hearlier, hsince⟩
  · rw [hsince, List.mem_singleton] at hc
    exact Or.inl (by rw [hsealed, hc, hanswered])
  · rw [hsince] at hc
    rcases List.mem_cons.1 hc with hc | hc
    · exact Or.inr ⟨earlier, us, _, heq, hearlier, by rw [hsealed, hc]⟩
    · exact Or.inl (by rw [hsealed, List.mem_singleton.1 hc])

end DropboxMirror
