import Genesis32.Disk.AtaChannel

/-!
# Calls of the driver on a channel

`read_disk_block` and `write_disk_block` against a channel with its drives. A read brings the
sectors that were asked for in order, as many as it says it has moved, and a write stores them in
order; neither touches anything else, however long the drive is busy and wherever it fails. If the
drive is prompt and does not fail, neither does the call.
-/

namespace Genesis32

open Word PortProgram

namespace Ata

variable {base : Nat} {c : Channel} {dr : Drive} {α : Type}

/-! ## Polling -/

/-- An input of the status register. -/
theorem run_status (hbase : base + 7 < 65536) (c : Channel) (dr : Drive)
    (f : Nat → DriverProgram α) :
    run (Channel.device base) ((inbProgram (base + 7)).andThen f) (c.setCurrent dr) =
      run (Channel.device base) (f dr.phase.status)
        (c.setCurrent { dr with phase := dr.phase.tick }) := by
  have hanswer : (Channel.device base).answer (c.setCurrent dr) (.byte ((base + 7) % 65536)) =
      (dr.phase.status, c.setCurrent { dr with phase := dr.phase.tick }) := by
    simp only [Channel.device]
    rw [Nat.mod_eq_of_lt hbase, if_pos ⟨by omega, by omega⟩, Nat.add_sub_cancel_left,
      Channel.read_status]
  rw [inbProgram, andThen, run_input, hanswer]
  simp only [andThen]
  rw [Nat.mod_eq_of_lt dr.phase.status_lt]

/-- A polling loop lets the drive get on, and ends in time if the drive is ready in time. -/
theorem run_poll (hbase : base + 7 < 65536) {ready : Nat → Bool}
    (hready : ∀ p : Phase, p.isBusy = true → ready p.status = false) (c : Channel) :
    ∀ (k : Nat) (dr : Drive), ∃ b p,
      run (Channel.device base) (pollProgram (base + 7) ready k) (c.setCurrent dr) =
        (b, c.setCurrent { dr with phase := p }) ∧ p.settled = dr.phase.settled ∧
      (b = true → p = dr.phase.settled ∧ ready p.status = true) ∧
      (dr.phase.wait ≤ k → p = dr.phase.settled ∧ b = ready p.status) := by
  -- one round: the phase after it, and what it shows
  have hround : ∀ p : Phase, (ready p.status = true → p.tick = p ∧ p.settled = p) ∧
      (p.wait = 0 → p.tick = p ∧ p.settled = p) := by
    intro p
    have hnot : p.isBusy = false → p.tick = p ∧ p.settled = p := fun h =>
      ⟨Phase.tick_of_not_busy h, Phase.settled_of_not_busy h⟩
    cases hbusy : p.isBusy with
    | false => exact ⟨fun _ => hnot hbusy, fun _ => hnot hbusy⟩
    | true =>
        have hwait := Phase.wait_tick hbusy
        exact ⟨fun h => absurd h (by rw [hready p hbusy]; decide), fun h => by omega⟩
  intro k
  induction k with
  | zero =>
      intro dr
      refine ⟨ready dr.phase.status, dr.phase.tick, ?_, Phase.settled_tick _, fun h => ?_,
        fun h => ?_⟩
      · rw [pollProgram, run_status hbase]
        rfl
      · obtain ⟨htick, hsettled⟩ := (hround dr.phase).1 h
        exact ⟨by rw [htick, hsettled], by rw [htick]; exact h⟩
      · obtain ⟨htick, hsettled⟩ := (hround dr.phase).2 (by omega)
        exact ⟨by rw [htick, hsettled], by rw [htick]⟩
  | succ k ih =>
      intro dr
      rw [pollProgram, run_status hbase]
      by_cases hnow : ready dr.phase.status = true
      · obtain ⟨htick, hsettled⟩ := (hround dr.phase).1 hnow
        rw [if_pos hnow, htick]
        exact ⟨true, dr.phase, rfl, rfl, fun _ => ⟨hsettled.symm, hnow⟩,
          fun _ => ⟨hsettled.symm, hnow.symm⟩⟩
      · rw [if_neg hnow]
        obtain ⟨b, p, hrun, hsame, htrue, hwait⟩ := ih { dr with phase := dr.phase.tick }
        simp only [Phase.settled_tick] at hsame htrue hwait
        refine ⟨b, p, hrun, hsame, htrue, fun h => hwait ?_⟩
        cases hbusy : dr.phase.isBusy with
        | false =>
            rw [Phase.tick_of_not_busy hbusy, Phase.wait_of_not_busy hbusy]
            exact Nat.zero_le k
        | true =>
            have htick := Phase.wait_tick hbusy
            omega

/-- The check of the error bits of a drive that is not busy. -/
theorem run_status_error (hbase : base + 7 < 65536) (c : Channel) (dr : Drive)
    (hbusy : dr.phase.isBusy = false) :
    ∃ b, run (Channel.device base) (statusErrorProgram base) (c.setCurrent dr) =
      (b, c.setCurrent dr) ∧
      (b = true ↔ dr.phase.status &&& 0x01 ≠ 0 ∨ dr.phase.status &&& 0x20 ≠ 0) := by
  have hsame : ({ dr with phase := dr.phase.tick } : Drive) = dr := by
    rw [Phase.tick_of_not_busy hbusy]
  rw [statusErrorProgram, run_status hbase, hsame]
  by_cases herr : dr.phase.status &&& 0x01 ≠ 0
  · rw [if_pos herr]
    exact ⟨true, rfl, ⟨fun _ => Or.inl herr, fun _ => rfl⟩⟩
  · rw [if_neg herr, run_status hbase, hsame]
    exact ⟨_, rfl, by rw [decide_eq_true_iff, or_iff_right herr]⟩

/-- The start of a round of a transfer: the loop ends with a code, or the drive has not failed and
asks for data. -/
theorem run_request (hbase : base + 7 < 65536) (c : Channel) {dr : Drive}
    {asks : Option Failure → Phase} (hasks : Drive.Asks asks) {failure : Option Failure}
    (hphase : dr.phase.settled = asks failure) {err : Int} (herr : err ≠ 0) (i : Nat)
    (buf : ByteMem) (next : DriverProgram BlockResult) :
    let round := (pollProgram (base + 7) dataRequest ataWait).andThen fun inTime =>
      if inTime then
        (statusErrorProgram base).andThen fun failed =>
          if failed then .ret ⟨err, i, buf⟩ else next
      else .ret ⟨-timeOut, i, buf⟩
    (∃ code p, run (Channel.device base) round (c.setCurrent dr) =
        (⟨code, i, buf⟩, c.setCurrent { dr with phase := p }) ∧ code ≠ 0 ∧
      (dr.phase.wait ≤ ataWait → p.isBusy = false ∧ failure ≠ none)) ∨
    failure = none ∧ run (Channel.device base) round (c.setCurrent dr) =
      run (Channel.device base) next (c.setCurrent { dr with phase := asks none }) := by
  intro round
  obtain ⟨b, p, hpoll, _, htrue, hwait⟩ :=
    run_poll hbase (fun p hp => (Phase.busy_not_ready hp).2) c ataWait dr
  rw [hphase] at htrue hwait
  rw [show round = _ from rfl, run_and_then, hpoll]
  simp only
  cases b with
  | false =>
      -- the drive asks for nothing in time
      refine Or.inl ⟨-timeOut, p, rfl, time_out_ne, fun hw => ?_⟩
      obtain ⟨rfl, hb⟩ := hwait hw
      refine ⟨hasks.not_busy failure, fun hnone => ?_⟩
      rw [hnone, hasks.request] at hb
      exact Bool.false_ne_true hb
  | true =>
      obtain ⟨rfl, hrequest⟩ := htrue rfl
      obtain ⟨failed, hstatus, hfailed⟩ := run_status_error hbase c
        { dr with phase := asks failure } (hasks.not_busy failure)
      have hfailed := hfailed.trans (hasks.error failure hrequest)
      rw [if_pos rfl, run_and_then, hstatus]
      simp only
      cases failed with
      | true =>
          exact Or.inl ⟨err, _, rfl, herr, fun _ => ⟨hasks.not_busy failure, hfailed.mp rfl⟩⟩
      | false =>
          have hnone : failure = none := by
            by_contra hne
            exact Bool.false_ne_true (hfailed.mpr hne)
          subst hnone
          exact Or.inr ⟨rfl, rfl⟩

/-! ## Drives over time -/

/-- A drive that is the same after `n` of its busy periods, but for its sectors and its phase. -/
structure Drive.Evolves (dr dr' : Drive) : Prop where
  identity : dr'.identity = dr.identity
  periods : ∃ n, ∀ k, dr'.periods k = dr.periods (n + k)

namespace Drive.Evolves

variable {dr₁ dr₂ dr₃ : Drive}

theorem refl (dr : Drive) : dr.Evolves dr := ⟨rfl, 0, fun k => by rw [Nat.zero_add]⟩

theorem trans (h : dr₁.Evolves dr₂) (h' : dr₂.Evolves dr₃) : dr₁.Evolves dr₃ := by
  obtain ⟨n, hn⟩ := h.periods
  obtain ⟨m, hm⟩ := h'.periods
  refine ⟨h'.identity.trans h.identity, n + m, fun k => ?_⟩
  rw [hm, hn, Nat.add_assoc]

theorem prompt (h : dr₁.Evolves dr₂) (hprompt : dr₁.Prompt) : dr₂.Prompt := by
  obtain ⟨n, hn⟩ := h.periods
  intro k
  rw [hn]
  exact hprompt (n + k)

theorem sound (h : dr₁.Evolves dr₂) (hsound : dr₁.Sound) : dr₂.Sound := by
  obtain ⟨n, hn⟩ := h.periods
  intro k
  rw [hn]
  exact hsound (n + k)

/-- A new phase changes nothing else. -/
theorem phase (dr : Drive) (image : ByteMem) (p : Phase) :
    dr.Evolves { dr with image := image, phase := p } :=
  ⟨rfl, 0, fun k => by rw [Nat.zero_add]⟩

theorem pause (dr : Drive) (image : ByteMem) (after : Option Failure → Phase) :
    dr.Evolves ({ dr with image := image }.pause after) :=
  ⟨rfl, 1, fun k => by rw [Nat.add_comm]; rfl⟩

end Drive.Evolves

/-- A pause ends where the drive is not busy, and after one busy period. -/
theorem Drive.pause_ends (dr : Drive) {after : Option Failure → Phase}
    (h : (after (dr.periods 0).failure).isBusy = false) :
    (dr.pause after).phase.settled = after (dr.periods 0).failure ∧
      (dr.Prompt → (dr.pause after).phase.wait ≤ ataWait) := by
  rw [pause, Phase.settled_busy_for, Phase.wait_busy_for, Phase.settled_of_not_busy h,
    Phase.wait_of_not_busy h]
  exact ⟨rfl, fun hprompt => hprompt 0⟩

/-! ## The words of a sector -/

/-- An input of the data register. -/
theorem run_word (hbase : base + 7 < 65536) (c : Channel) (dr : Drive)
    (f : Nat → DriverProgram α) :
    run (Channel.device base) ((in16Program base).andThen f) (c.setCurrent dr) =
      run (Channel.device base) (f (dr.readData.1 % 65536)) (c.setCurrent dr.readData.2) := by
  have hanswer : (Channel.device base).answer (c.setCurrent dr) (.word (base % 65536)) =
      (dr.readData.1, c.setCurrent dr.readData.2) := by
    simp only [Channel.device]
    rw [Nat.mod_eq_of_lt (by omega), if_pos ⟨by omega, by omega⟩, Nat.sub_self, Channel.read_data]
  rw [in16Program, andThen, run_input, hanswer]
  simp only [andThen]

/-- A drive that has sent a sector. -/
def Drive.sent (dr : Drive) (image : ByteMem) (sector left : Nat) : Drive :=
  if left = 0 then { dr with phase := .idle none }
  else dr.pause (Drive.offer image (sector + 1) (left - 1))

/-- The word loop of a read brings the rest of the sector. -/
theorem run_read_words (hbase : base + 7 < 65536) (c : Channel) (image : ByteMem)
    (sector left curStart : Nat) (fault : Option Fault) : ∀ (r j : Nat) (dr : Drive)
      (buf : ByteMem), j + r = 255 → dr.phase = .sending image sector j left fault →
      run (Channel.device base) (readWordsProgram base curStart (r + 1) j buf) (c.setCurrent dr) =
        (buf.copy (curStart + 2 * j) image (512 * sector + 2 * j) (2 * (r + 1)),
          c.setCurrent (dr.sent image sector left)) := by
  intro r
  induction r with
  | zero =>
      intro j dr buf hj hphase
      have hword := ByteMem.word16_lt image (512 * sector + 2 * j)
      have hdata : dr.readData =
          (image.word16 (512 * sector + 2 * j), dr.sent image sector left) := by
        simp only [Drive.readData, hphase, if_neg (show ¬ j < 255 by omega)]
        rfl
      rw [readWordsProgram, run_word hbase, hdata]
      simp only
      rw [Nat.mod_eq_of_lt hword, ByteMem.setWord16_word16]
      rfl
  | succ r ih =>
      intro j dr buf hj hphase
      have hword := ByteMem.word16_lt image (512 * sector + 2 * j)
      have hdata : dr.readData = (image.word16 (512 * sector + 2 * j),
          { dr with phase := .sending image sector (j + 1) left fault }) := by
        simp only [Drive.readData, hphase, if_pos (show j < 255 by omega)]
      rw [readWordsProgram, run_word hbase, hdata]
      simp only
      rw [Nat.mod_eq_of_lt hword, ih (j + 1) _ _ (by omega) rfl, ByteMem.setWord16_word16,
        show curStart + 2 * (j + 1) = curStart + 2 * j + 2 by omega,
        show 512 * sector + 2 * (j + 1) = 512 * sector + 2 * j + 2 by omega,
        ByteMem.copy_append, show 2 + 2 * (r + 1) = 2 * (r + 1 + 1) by omega]
      rfl

/-! ## Reading sectors -/

/-- What a drive has for a reader that still wants `r` sectors from `sector` on. -/
def Drive.offers (image : ByteMem) (sector r : Nat) (failure : Option Failure) : Phase :=
  match r with
  | 0 => .idle none
  | r + 1 => Drive.offer image sector r failure

theorem Drive.offers_not_busy (image : ByteMem) (sector r : Nat) (failure : Option Failure) :
    (Drive.offers image sector r failure).isBusy = false := by
  cases r with
  | zero => rfl
  | succ r => exact (Drive.offer_asks image sector r).not_busy failure

/-- The drive behind a sector has the next one, after a busy period. -/
theorem Drive.sent_offers (dr : Drive) (image : ByteMem) (sector left : Nat) :
    (dr.sent image sector left).phase.settled =
      Drive.offers image (sector + 1) left (dr.periods 0).failure ∧
    (dr.Prompt → (dr.sent image sector left).phase.wait ≤ ataWait) ∧
    dr.Evolves (dr.sent image sector left) ∧ (dr.sent image sector left).image = dr.image := by
  cases left with
  | zero => exact ⟨rfl, fun _ => Nat.zero_le _, .phase dr dr.image _, rfl⟩
  | succ left =>
      obtain ⟨hsettled, hwait⟩ :=
        dr.pause_ends (offers_not_busy image (sector + 1) (left + 1) (dr.periods 0).failure)
      exact ⟨hsettled, hwait, .pause dr dr.image _, rfl⟩

/-- How a transfer of up to `r` sectors from `i` on ends: the code, the sectors that the loop has
moved, and the drive. A prompt drive that does not fail, now or later, lets it succeed. -/
structure Ends (i r : Nat) (failure : Option Failure) (dr dr' : Drive) (code : Int)
    (moved : Nat) : Prop where
  evolves : dr.Evolves dr'
  lower : i ≤ moved
  upper : moved ≤ i + r
  all : code = 0 → moved = i + r
  quiet : dr.Prompt → dr.phase.wait ≤ ataWait → dr'.phase.isBusy = false
  succeeds : dr.Prompt → dr.phase.wait ≤ ataWait → failure = none → dr.Sound → code = 0

/-- One more sector before a transfer. -/
theorem Ends.step {i r moved : Nat} {failure : Option Failure} {dr₁ dr₂ dr₃ : Drive} {code : Int}
    (h : Ends (i + 1) r failure dr₂ dr₃ code moved) (hevolves : dr₁.Evolves dr₂)
    (hwait : dr₁.Prompt → dr₂.phase.wait ≤ ataWait) (hsound : dr₁.Sound → failure = none) :
    Ends i (r + 1) none dr₁ dr₃ code moved where
  evolves := hevolves.trans h.evolves
  lower := Nat.le_of_succ_le h.lower
  upper := h.upper.trans_eq (by omega)
  all hcode := (h.all hcode).trans (by omega)
  quiet hprompt _ := h.quiet (hevolves.prompt hprompt) (hwait hprompt)
  succeeds hprompt _ _ hs :=
    h.succeeds (hevolves.prompt hprompt) (hwait hprompt) (hsound hs) (hevolves.sound hs)

/-- The read loop brings sectors in order, as many as it says it has moved. -/
theorem run_read_sectors (hbase : base + 7 < 65536) (c : Channel) (image : ByteMem) (lba : Nat) :
    ∀ (r i : Nat) (dr : Drive) (buf : ByteMem) (failure : Option Failure),
      dr.phase.settled = Drive.offers image (lba + i) r failure →
      (r = 0 → dr.phase.isBusy = false) → ∃ code moved dr',
      run (Channel.device base) (readSectorsProgram base r i buf) (c.setCurrent dr) =
        (⟨code, moved, buf.copy (512 * i) image (512 * (lba + i)) (512 * (moved - i))⟩,
          c.setCurrent dr') ∧ dr'.image = dr.image ∧ Ends i r failure dr dr' code moved := by
  intro r
  induction r with
  | zero =>
      intro i dr buf failure _ hlast
      refine ⟨0, i, dr, ?_, rfl, ⟨.refl dr, Nat.le_refl i, Nat.le_refl i, fun _ => rfl,
        fun _ _ => hlast rfl, fun _ _ _ _ => rfl⟩⟩
      rw [Nat.sub_self, Nat.mul_zero, ByteMem.copy_zero]
      rfl
  | succ r ih =>
      intro i dr buf failure hphase _
      rw [readSectorsProgram]
      rcases run_request hbase c (Drive.offer_asks image (lba + i) r) hphase disk_read_err_ne i buf
        ((readWordsProgram base (512 * i) 256 0 buf).andThen fun buf =>
          readSectorsProgram base r (i + 1) buf) with ⟨code, p, hrun, hcode, hquiet⟩ | ⟨rfl, hrun⟩
      · refine ⟨code, i, { dr with phase := p }, ?_, rfl, ⟨.phase dr dr.image p, Nat.le_refl i,
          Nat.le_add_right _ _, fun h => absurd h hcode, fun _ hw => (hquiet hw).1,
          fun _ hw hnone _ => absurd hnone (hquiet hw).2⟩⟩
        rw [hrun, Nat.sub_self, Nat.mul_zero, ByteMem.copy_zero]
      · have hwords := run_read_words hbase c image (lba + i) r (512 * i) none 255 0
          { dr with phase := Drive.offer image (lba + i) r none } buf rfl rfl
        obtain ⟨hnext, hprompt', hevolves, himage⟩ :=
          Drive.sent_offers { dr with phase := Drive.offer image (lba + i) r none } image
            (lba + i) r
        have hevolves := Drive.Evolves.trans (.phase dr dr.image _) hevolves
        rw [hrun, run_and_then, hwords]
        simp only
        obtain ⟨code, moved, dr', hrun, himage', hends⟩ := ih (i + 1) _
          (buf.copy (512 * i + 2 * 0) image (512 * (lba + i) + 2 * 0) (2 * (255 + 1))) _ hnext
          (fun h => by rw [h]; rfl)
        refine ⟨code, moved, dr', ?_, himage'.trans himage,
          hends.step hevolves hprompt' fun hs => hs 0⟩
        have hlower := hends.lower
        rw [hrun, show 512 * (i + 1) = 512 * i + 2 * 0 + 2 * (255 + 1) by omega,
          show 512 * (lba + (i + 1)) = 512 * (lba + i) + 2 * 0 + 2 * (255 + 1) by omega,
          ByteMem.copy_append, show 2 * (255 + 1) + 512 * (moved - (i + 1)) =
            512 * (moved - i) by omega]
        rfl

/-! ## Writing sectors -/

/-- A drive that has received a sector. -/
def Drive.stored (dr : Drive) (sector left : Nat) (latch : ByteMem) : Drive :=
  if (dr.periods 0).failure.isSome then dr.pause (Drive.received sector left)
  else
    { dr with image := dr.image.copy (512 * sector) latch 0 512 }.pause (Drive.received sector left)

/-- An output to the data port. -/
theorem take_word (hbase : base + 7 < 65536) (c : Channel) {dr : Drive}
    (hbusy : dr.phase.isBusy = false) {v : Nat} (hv : v < 65536) :
    (Channel.device base).take (c.setCurrent dr) (out16 base v) =
      c.setCurrent (dr.writeData v) := by
  simp only [Channel.device, out16]
  rw [Nat.mod_eq_of_lt (show base < 65536 by omega), if_pos ⟨by omega, by omega⟩, Nat.sub_self,
    Nat.mod_eq_of_lt hv, Channel.write_data c hbusy]

/-- The word loop of a write sends the rest of the sector. -/
theorem take_write_words (hbase : base + 7 < 65536) (c : Channel) (buf : ByteMem)
    (sector left curStart : Nat) (fault : Option Fault) : ∀ (r j : Nat) (dr : Drive)
      (latch : ByteMem), j + r = 255 → dr.phase = .receiving sector j left latch fault →
      (writeWords base buf curStart (r + 1) j).foldl (Channel.device base).take (c.setCurrent dr) =
        c.setCurrent (dr.stored sector left
          (latch.copy (2 * j) buf (curStart + 2 * j) (2 * (r + 1)))) := by
  intro r
  induction r with
  | zero =>
      intro j dr latch hj hphase
      have hbusy : dr.phase.isBusy = false := by rw [hphase]; rfl
      have hdata : dr.writeData (buf.word16 (curStart + 2 * j)) =
          dr.stored sector left (latch.copy (2 * j) buf (curStart + 2 * j) (2 * (0 + 1))) := by
        simp only [Drive.writeData, hphase, if_neg (show ¬ j < 255 by omega),
          ByteMem.setWord16_word16]
        rfl
      rw [writeWords, List.foldl_cons, take_word hbase c hbusy (ByteMem.word16_lt _ _), hdata]
      rfl
  | succ r ih =>
      intro j dr latch hj hphase
      have hbusy : dr.phase.isBusy = false := by rw [hphase]; rfl
      have hdata : dr.writeData (buf.word16 (curStart + 2 * j)) = { dr with
          phase := .receiving sector (j + 1) left (latch.copy (2 * j) buf (curStart + 2 * j) 2)
            fault } := by
        simp only [Drive.writeData, hphase, if_pos (show j < 255 by omega),
          ByteMem.setWord16_word16]
      rw [writeWords, List.foldl_cons, take_word hbase c hbusy (ByteMem.word16_lt _ _), hdata,
        ih (j + 1) _ _ (by omega) rfl, show 2 * (j + 1) = 2 * j + 2 by omega,
        show curStart + (2 * j + 2) = curStart + 2 * j + 2 by omega, ByteMem.copy_append,
        show 2 + 2 * (r + 1) = 2 * (r + 1 + 1) by omega]
      rfl

/-- What a drive waits for when a writer still has `r` sectors from `sector` on. -/
def Drive.awaits (sector r : Nat) (failure : Option Failure) : Phase :=
  match r with
  | 0 => .idle (failure.map Failure.fault)
  | r + 1 => Drive.accept sector r failure

theorem Drive.awaits_not_busy (sector r : Nat) (failure : Option Failure) :
    (Drive.awaits sector r failure).isBusy = false := by
  cases r with
  | zero => rfl
  | succ r => exact (Drive.accept_asks sector r).not_busy failure

/-- Behind a sector the drive waits for the next one, after a busy period. The sector is on the
medium unless the drive has failed. -/
theorem Drive.stored_awaits (dr : Drive) (sector left : Nat) (latch : ByteMem) : ∃ failure,
    (dr.stored sector left latch).phase.settled = Drive.awaits (sector + 1) left failure ∧
    (dr.Sound → failure = none) ∧
    (dr.Prompt → (dr.stored sector left latch).phase.wait ≤ ataWait) ∧
    dr.Evolves (dr.stored sector left latch) ∧
    (dr.stored sector left latch).image =
      (if failure = none then dr.image.copy (512 * sector) latch 0 512 else dr.image) := by
  have hreceived : ∀ failure, Drive.received sector left failure =
      Drive.awaits (sector + 1) left failure := fun failure => by
    cases left <;> rfl
  have hpause : ∀ dr' : Drive, dr'.periods = dr.periods →
      (dr'.pause (Drive.received sector left)).phase.settled =
        Drive.awaits (sector + 1) left (dr.periods 0).failure ∧
      (dr.Prompt → (dr'.pause (Drive.received sector left)).phase.wait ≤ ataWait) := by
    intro dr' hperiods
    rw [show dr.Prompt ↔ dr'.Prompt by rw [Drive.Prompt, Drive.Prompt, hperiods], ← hperiods,
      ← hreceived]
    exact dr'.pause_ends (by rw [hreceived]; exact Drive.awaits_not_busy (sector + 1) left _)
  refine ⟨(dr.periods 0).failure, ?_⟩
  cases hfailure : (dr.periods 0).failure with
  | none =>
      obtain ⟨hsettled, hwait⟩ := hpause
        { dr with image := dr.image.copy (512 * sector) latch 0 512 } rfl
      rw [Drive.stored, hfailure, if_neg (by simp), if_pos rfl]
      rw [hfailure] at hsettled
      exact ⟨hsettled, fun _ => rfl, hwait, .pause dr _ _, rfl⟩
  | some failure =>
      obtain ⟨hsettled, hwait⟩ := hpause dr rfl
      rw [Drive.stored, hfailure, if_pos (show (some failure).isSome = true from rfl),
        if_neg (Option.some_ne_none failure)]
      rw [hfailure] at hsettled
      exact ⟨hsettled, fun h => absurd (h 0) (by simp [hfailure]), hwait,
        .pause dr dr.image _, rfl⟩

/-- The write loop stores sectors in order, and all of them if it succeeds. What is stored is what
the loop has moved, but for a sector that the drive fails on. -/
theorem run_write_sectors (hbase : base + 7 < 65536) (c : Channel) (buf : ByteMem) (lba : Nat) :
    ∀ (r i : Nat) (dr : Drive) (failure : Option Failure),
      dr.phase.settled = Drive.awaits (lba + i) r failure → ∃ code moved kept dr',
      run (Channel.device base) (writeSectorsProgram base buf r i) (c.setCurrent dr) =
        (⟨code, moved, buf⟩, c.setCurrent dr') ∧
      dr'.image = dr.image.copy (512 * (lba + i)) buf (512 * i) (512 * (kept - i)) ∧
      i ≤ kept ∧ kept ≤ moved ∧ moved ≤ kept + 1 ∧ (code = 0 → kept = moved) ∧
      (failure ≠ none → kept = i ∧ moved = i ∧ code ≠ 0) ∧
      Ends i r failure dr dr' code moved := by
  have hnothing : ∀ (i : Nat) (m : ByteMem),
      m = m.copy (512 * (lba + i)) buf (512 * i) (512 * (i - i)) := fun i m => by
    rw [Nat.sub_self, Nat.mul_zero, ByteMem.copy_zero]
  intro r
  induction r with
  | zero =>
      intro i dr failure hphase
      obtain ⟨b, p, hpoll, hsettled, htrue, hwait⟩ :=
        run_poll hbase (fun p hp => (Phase.busy_not_ready hp).1) c ataWait dr
      rw [writeSectorsProgram, run_and_then, hpoll]
      simp only
      cases b with
      | false =>
          refine ⟨-timeOut, i, i, { dr with phase := p }, rfl, hnothing i _, Nat.le_refl i,
            Nat.le_refl i, Nat.le_succ i, fun _ => rfl, fun _ => ⟨rfl, rfl, time_out_ne⟩,
            ⟨.phase dr dr.image p, Nat.le_refl i, Nat.le_refl i, fun _ => rfl, fun _ hw => ?_,
              fun _ hw _ _ => ?_⟩⟩
          · rw [(hwait hw).1]
            exact Phase.settled_not_busy _
          · obtain ⟨hp, hb⟩ := hwait hw
            rw [hp, Phase.not_busy_status (Phase.settled_not_busy _)] at hb
            exact absurd hb Bool.false_ne_true
      | true =>
          have hp : p = .idle (failure.map Failure.fault) := by
            rw [(htrue rfl).1, hphase]
            rfl
          subst hp
          obtain ⟨failed, hstatus, hfailed⟩ := run_status_error hbase c
            { dr with phase := .idle (failure.map Failure.fault) } rfl
          rw [if_pos rfl, run_and_then, hstatus]
          simp only
          have hfailure : failed = true ↔ failure ≠ none := by
            exact hfailed.trans <| (Phase.ready_bits (failure.map Failure.fault) false).2.2.2.trans
              (not_congr Option.map_eq_none_iff)
          refine ⟨if failed then diskWriteErr else 0, i, i,
            { dr with phase := .idle (failure.map Failure.fault) }, rfl, hnothing i _,
            Nat.le_refl i, Nat.le_refl i, Nat.le_succ i, fun _ => rfl, fun h => ⟨rfl, rfl, ?_⟩,
            ⟨.phase dr dr.image _, Nat.le_refl i, Nat.le_refl i, fun _ => rfl, fun _ _ => rfl,
              fun _ _ hnone _ => ?_⟩⟩
          · rw [if_pos (hfailure.mpr h)]
            exact disk_write_err_ne
          · rw [if_neg fun h => hfailure.mp h hnone]
  | succ r ih =>
      intro i dr failure hphase
      rw [writeSectorsProgram]
      rcases run_request hbase c (Drive.accept_asks (lba + i) r) hphase disk_write_err_ne i buf
        (outputs (writeWords base buf (512 * i) 256 0) (writeSectorsProgram base buf r (i + 1)))
        with ⟨code, p, hrun, hcode, hquiet⟩ | ⟨rfl, hrun⟩
      · exact ⟨code, i, i, { dr with phase := p }, hrun, hnothing i _, Nat.le_refl i,
          Nat.le_refl i, Nat.le_succ i, fun _ => rfl, fun _ => ⟨rfl, rfl, hcode⟩,
          ⟨.phase dr dr.image p, Nat.le_refl i, Nat.le_add_right _ _, fun h => absurd h hcode,
            fun _ hw => (hquiet hw).1, fun _ hw hnone _ => absurd hnone (hquiet hw).2⟩⟩
      · obtain ⟨failure', hnext, hsound', hprompt', hevolves, himage⟩ :=
          Drive.stored_awaits { dr with phase := Drive.accept (lba + i) r none } (lba + i) r
            (ByteMem.copy (fun _ => 0x00) (2 * 0) buf (512 * i + 2 * 0) (2 * (255 + 1)))
        have hevolves := Drive.Evolves.trans (.phase dr dr.image _) hevolves
        rw [hrun, run_outputs, take_write_words hbase c buf (lba + i) r (512 * i) none 255 0 _ _
          rfl rfl]
        obtain ⟨code, moved, kept, dr', hrun, himage', hlo, hkept, hmoved, hall, hfail, hends⟩ :=
          ih (i + 1) _ failure' hnext
        have hends' := hends.step hevolves hprompt' hsound'
        cases failure' with
        | none =>
            rw [if_pos rfl] at himage
            refine ⟨code, moved, kept, dr', hrun, ?_, Nat.le_of_succ_le hlo, hkept, hmoved, hall,
              fun h => absurd rfl h, hends'⟩
            rw [himage', himage, show (2 : Nat) * 0 = 0 from rfl, Nat.add_zero,
              show 2 * (255 + 1) = 512 from rfl, ByteMem.copy_copy,
              show 512 * (lba + (i + 1)) = 512 * (lba + i) + 512 by omega,
              show 512 * (i + 1) = 512 * i + 512 by omega, ByteMem.copy_append,
              show 512 + 512 * (kept - (i + 1)) = 512 * (kept - i) by omega]
        | some failure' =>
            -- the drive has failed on this sector, so nothing comes behind it
            obtain ⟨rfl, rfl, hcode⟩ := hfail (Option.some_ne_none failure')
            rw [if_neg (Option.some_ne_none failure')] at himage
            rw [himage, ← hnothing] at himage'
            exact ⟨code, i + 1, i, dr', hrun, himage'.trans (hnothing i _), Nat.le_refl i,
              Nat.le_succ i, Nat.le_refl _, fun h => absurd h hcode, fun h => absurd rfl h, hends'⟩

/-! ## Starting a command -/

/-- The channel with the task file of a command. -/
def Channel.loaded (c : Channel) (d : DiskPorts) (lba total : Nat) : Channel :=
  { c with
    head := ((if d.isMaster then 0xe0 else 0xf0) ||| ((lba >>> 24) &&& 0x0f)) % 256
    count := total % 256
    lbaLow := lba % 256
    lbaMid := lba / 256 % 256
    lbaHigh := lba / 65536 % 256 }

/-- The head register selects the drive of the disk. -/
theorem Channel.loaded_selected (c : Channel) (d : DiskPorts) (lba total : Nat) :
    (c.loaded d lba total).selected = d.isMaster := by
  have hall : ∀ master, ∀ n < 16,
      decide (((if master then 0xe0 else 0xf0) ||| n) % 256 &&& 0x10 = 0) = master := by decide
  rw [selected, loaded, land_nibble]
  exact hall d.isMaster _ (Nat.mod_lt _ (by decide))

theorem Channel.loaded_current (c : Channel) (d : DiskPorts) (lba total : Nat) :
    (c.loaded d lba total).current = c.drive d.isMaster := by
  rw [current, loaded_selected]
  rfl

theorem Channel.loaded_lba (c : Channel) (d : DiskPorts) {lba : Nat} (hlba : lba < 268435456)
    (total : Nat) : (c.loaded d lba total).lba = lba := by
  have hhead : (c.loaded d lba total).head % 16 = (lba >>> 24) % 16 :=
    head_register d.isMaster (lba >>> 24)
  rw [Channel.lba, hhead, Nat.shiftRight_eq_div_pow]
  simp only [loaded]
  omega

theorem Channel.loaded_sectors (c : Channel) (d : DiskPorts) (lba : Nat) {total : Nat}
    (hpos : 1 ≤ total) (hle : total ≤ 256) : (c.loaded d lba total).sectors = total := by
  rw [show (c.loaded d lba total).sectors = if total % 256 = 0 then 256 else total % 256 from rfl]
  split_ifs <;> omega

/-- No drive of a quiet channel is busy, whichever is selected. -/
theorem Channel.Quiet.not_busy {c : Channel} (h : c.Quiet) : c.isBusy = false := by
  rw [Channel.isBusy]
  cases hcurrent : c.current with
  | none => rfl
  | some dr => exact h _ dr hcurrent

/-- The drive register and the task file registers may be written in any state of the drives. -/
theorem Channel.Quiet.of_drive {c c' : Channel} (h : c.Quiet) (hdrive : c'.drive = c.drive) :
    c'.Quiet := by
  intro m dr hm
  exact h m dr (hdrive ▸ hm)

/-- An output to a register of a quiet channel. -/
theorem take_register (hbase : base + 7 < 65536) (c : Channel) {r : Nat} (hr : r < 8) (v : Nat) :
    (Channel.device base).take c (outb (base + r) v) = c.write r (v % 256) := by
  simp only [Channel.device, outb]
  rw [Nat.mod_eq_of_lt (show base + r < 65536 by omega), if_pos ⟨by omega, by omega⟩,
    Nat.add_sub_cancel_left]

/-- The outputs before the command byte load the registers. -/
theorem take_task_file {d : DiskPorts} (hbase : d.baseDataPort + 7 < 65536) {c : Channel}
    (hquiet : c.Quiet) (lba total : Nat) :
    (loadTaskFile d lba total).foldl (Channel.device d.baseDataPort).take
      ((selectDrive d lba).foldl (Channel.device d.baseDataPort).take c) =
        c.loaded d lba total := by
  have hbusy : ∀ {c' : Channel}, c'.drive = c.drive → c'.isBusy = false :=
    fun hdrive => (hquiet.of_drive hdrive).not_busy
  simp only [selectDrive, loadTaskFile, List.foldl_cons, List.foldl_nil]
  rw [take_register hbase _ (by decide), take_register hbase _ (by decide),
    take_register hbase _ (by decide), take_register hbase _ (by decide),
    take_register hbase _ (by decide), Channel.write_head, Channel.write_count,
    Channel.write_lba_low, Channel.write_lba_mid, Channel.write_lba_high]
  · simp only [land_byte, Nat.shiftRight_eq_div_pow, Nat.mod_mod, Channel.loaded]
  all_goals exact hbusy rfl

/-- On a quiet channel a command that passes the bounds check gets to its drive. -/
theorem run_start_command {d : DiskPorts} (hbase : d.baseDataPort + 7 < 65536) {c : Channel}
    (hquiet : c.Quiet) (hdrive : c.drive d.isMaster = some dr) {lba total command : Nat}
    (hlba : lba < 268435456) (hpos : 1 ≤ total) (hle : total ≤ 256) (hcommand : command < 256)
    (hin : lba + total ≤ d.sectCount) (buf : ByteMem) (rest : DriverProgram BlockResult) :
    run (Channel.device d.baseDataPort) (startCommandProgram d lba total command buf rest) c =
      run (Channel.device d.baseDataPort) rest
        ((c.loaded d lba total).setCurrent (dr.command lba total command)) := by
  have hidle := hquiet _ dr hdrive
  have hpoll : ∀ {c' : Channel}, c'.current = some dr →
      run (Channel.device d.baseDataPort)
        (pollProgram (d.baseDataPort + 7) notBusy ataWait) c' = (true, c') := by
    intro c' hcurrent
    obtain ⟨b, p, hrun, _, _, hwait⟩ := run_poll hbase
      (fun p hp => (Phase.busy_not_ready hp).1) c' ataWait dr
    obtain ⟨hp, hb⟩ := hwait (by rw [Phase.wait_of_not_busy hidle]; exact Nat.zero_le _)
    rw [Phase.settled_of_not_busy hidle] at hp
    rw [hp, Phase.not_busy_status hidle] at hb
    rw [Channel.set_current_self hcurrent] at hrun
    rw [hrun, hb, hp, show ({ dr with phase := dr.phase } : Drive) = dr from rfl,
      Channel.set_current_self hcurrent]
  have hselected : ((selectDrive d lba).foldl (Channel.device d.baseDataPort).take c).current =
      some dr := by
    rw [selectDrive, List.foldl_cons, List.foldl_nil, take_register hbase _ (by decide),
      Channel.write_head hquiet.not_busy]
    exact (c.loaded_current d lba total).trans hdrive
  have hcurrent := (c.loaded_current d lba total).trans hdrive
  have hbounds : ¬ add32 lba total > d.sectCount := by
    rw [add32_of_lt (by omega)]
    omega
  rw [startCommandProgram, if_neg hbounds, run_outputs, run_and_then, hpoll hselected]
  simp only [if_true]
  rw [run_outputs, run_and_then, take_task_file hbase hquiet, hpoll hcurrent]
  simp only [if_true]
  have hloaded : (c.loaded d lba total).Quiet := hquiet.of_drive rfl
  rw [run_output, take_register hbase _ (by decide),
    Channel.write_command hloaded.not_busy hcurrent, Channel.loaded_lba c d hlba,
    Channel.loaded_sectors c d lba hpos hle, Nat.mod_eq_of_lt hcommand]

/-! ## Calls -/

/-- The drives of a channel after a transfer on the drive of a disk. -/
theorem Channel.drive_set_current (c : Channel) (d : DiskPorts) (lba total : Nat) (dr : Drive)
    (m : Bool) : ((c.loaded d lba total).setCurrent dr).drive m =
      if m = d.isMaster then some dr else c.drive m := by
  show Function.update c.drive (c.loaded d lba total).selected (some dr) m = _
  rw [Function.update_apply, loaded_selected]

/-- A call that the bounds check rejects does nothing. -/
theorem run_rejected {d : DiskPorts} {lba total command : Nat} (c : Channel)
    (h : add32 lba total > d.sectCount) (buf : ByteMem) (rest : DriverProgram BlockResult) :
    run (Channel.device d.baseDataPort) (startCommandProgram d lba total command buf rest) c =
      (⟨-gen32Invarg, 0, buf⟩, c) := by
  rw [startCommandProgram, if_pos h]
  rfl

/-- What a call has done to the channel: the drive of the disk has evolved to one with the image
`image`, and the other one is as it was. -/
structure Called (master : Bool) (dr : Drive) (c c' : Channel) (image : ByteMem) (code : Int)
    (moved total : Nat) : Prop where
  drive : ∃ dr', c'.drive master = some dr' ∧ dr.Evolves dr' ∧ dr'.image = image
  other : c'.drive (!master) = c.drive (!master)
  upper : moved ≤ total
  all : code = 0 → moved = total
  quiet : dr.Prompt → c'.Quiet
  succeeds : dr.Prompt → dr.Sound → code = 0

/-- A transfer of the drive of a disk behind its task file. -/
theorem Ends.called {d : DiskPorts} {c : Channel} (hquiet : c.Quiet) {lba total : Nat}
    {dr₁ dr₂ dr₃ : Drive} {failure : Option Failure} {code : Int} {moved : Nat}
    (h : Ends 0 total failure dr₂ dr₃ code moved) (hevolves : dr₁.Evolves dr₂)
    (hwait : dr₁.Prompt → dr₂.phase.wait ≤ ataWait) (hsound : dr₁.Sound → failure = none)
    {image : ByteMem} (himage : dr₃.image = image) :
    Called d.isMaster dr₁ c ((c.loaded d lba total).setCurrent dr₃) image code moved total where
  drive := ⟨dr₃, by rw [Channel.drive_set_current, if_pos rfl], hevolves.trans h.evolves, himage⟩
  other := by rw [Channel.drive_set_current, if_neg (by cases d.isMaster <;> decide)]
  upper := h.upper.trans_eq (Nat.zero_add total)
  all hcode := (h.all hcode).trans (Nat.zero_add total)
  quiet hprompt m dr hm := by
    rw [Channel.drive_set_current] at hm
    split_ifs at hm
    · obtain rfl := Option.some.inj hm
      exact h.quiet (hevolves.prompt hprompt) (hwait hprompt)
    · exact hquiet m dr hm
  succeeds hprompt hs :=
    h.succeeds (hevolves.prompt hprompt) (hwait hprompt) (hsound hs) (hevolves.sound hs)

/-- `read_disk_block` on a quiet channel brings the sectors from `lba` on, in order and as many as
it says, and leaves everything else alone. -/
theorem read_disk_block_channel {d : DiskPorts} (hbase : d.baseDataPort + 7 < 65536) {c : Channel}
    (hquiet : c.Quiet) (hdrive : c.drive d.isMaster = some dr) (hsize : d.sectCount ≤ dr.size)
    {lba total : Nat} (hlba : lba < 268435456) (hpos : 1 ≤ total) (hle : total ≤ 256)
    (hin : lba + total ≤ d.sectCount) (buf : ByteMem) : ∃ code moved c',
      run (Channel.device d.baseDataPort) (readDiskBlockProgram d lba total buf) c =
        (⟨code, moved, buf.copy 0 dr.image (512 * lba) (512 * moved)⟩, c') ∧
      Called d.isMaster dr c c' dr.image code moved total := by
  have hcommand : dr.command lba total 0x20 =
      dr.pause (Drive.offer dr.image lba (total - 1)) :=
    if_pos ⟨rfl, hin.trans hsize⟩
  obtain ⟨hsettled, hwait⟩ :=
    dr.pause_ends ((Drive.offer_asks dr.image lba (total - 1)).not_busy (dr.periods 0).failure)
  rw [← hcommand, show Drive.offer dr.image lba (total - 1) (dr.periods 0).failure =
    Drive.offers dr.image lba total (dr.periods 0).failure by
      rw [← Nat.sub_add_cancel hpos]; rfl] at hsettled
  rw [← hcommand] at hwait
  have hevolves : dr.Evolves (dr.command lba total 0x20) := by
    rw [hcommand]
    exact .pause dr dr.image _
  have himage : (dr.command lba total 0x20).image = dr.image := by
    rw [hcommand]
    rfl
  obtain ⟨b, p, hpoll, hsame, htrue, hready⟩ := run_poll hbase
    (fun p hp => (Phase.busy_not_ready hp).1) (c.loaded d lba total) ataWait
    (dr.command lba total 0x20)
  rw [readDiskBlockProgram, run_start_command hbase hquiet hdrive hlba hpos hle (by decide) hin,
    run_and_then, hpoll]
  simp only
  generalize dr.command lba total 0x20 = dr₁ at *
  cases b with
  | false =>
      have hends : Ends 0 total (dr.periods 0).failure dr₁ { dr₁ with phase := p } (-timeOut) 0 :=
        ⟨.phase dr₁ dr₁.image p, Nat.le_refl 0, Nat.zero_le _, fun h => absurd h time_out_ne,
          fun _ hw => by
            rw [(hready hw).1]
            exact Phase.settled_not_busy _,
          fun _ hw _ _ => by
            obtain ⟨rfl, hb⟩ := hready hw
            rw [Phase.not_busy_status (Phase.settled_not_busy _)] at hb
            exact absurd hb Bool.false_ne_true⟩
      refine ⟨-timeOut, 0, (c.loaded d lba total).setCurrent { dr₁ with phase := p }, ?_,
        hends.called hquiet hevolves hwait (fun hs => hs 0) himage⟩
      rw [Nat.mul_zero, ByteMem.copy_zero]
      rfl
  | true =>
      obtain ⟨code, moved, dr', hrun, himage', hends⟩ := run_read_sectors hbase
        (c.loaded d lba total) dr.image lba total 0 { dr₁ with phase := p } buf
        (dr.periods 0).failure (by rw [hsame, hsettled, Nat.add_zero]) (fun h => by omega)
      refine ⟨code, moved, (c.loaded d lba total).setCurrent dr', ?_,
        hends.called hquiet (hevolves.trans (.phase dr₁ dr₁.image p)) (fun h => ?_)
          (fun hs => hs 0) (himage'.trans himage)⟩
      · rw [if_pos rfl, hrun, Nat.sub_zero, Nat.add_zero, Nat.mul_zero]
      · obtain ⟨rfl, _⟩ := hready (hwait h)
        rw [Phase.wait_of_not_busy (Phase.settled_not_busy _)]
        exact Nat.zero_le _

/-- `write_disk_block` on a quiet channel stores sectors from `lba` on, in order, as many as it says
or, where the drive fails on a sector, one less. It leaves everything else alone. -/
theorem write_disk_block_channel {d : DiskPorts} (hbase : d.baseDataPort + 7 < 65536) {c : Channel}
    (hquiet : c.Quiet) (hdrive : c.drive d.isMaster = some dr) (hsize : d.sectCount ≤ dr.size)
    {lba total : Nat} (hlba : lba < 268435456) (hpos : 1 ≤ total) (hle : total ≤ 256)
    (hin : lba + total ≤ d.sectCount) (buf : ByteMem) : ∃ code moved kept c',
      run (Channel.device d.baseDataPort) (writeDiskBlockProgram d lba total buf) c =
        (⟨code, moved, buf⟩, c') ∧
      kept ≤ moved ∧ moved ≤ kept + 1 ∧ (code = 0 → kept = moved) ∧
      Called d.isMaster dr c c' (dr.image.copy (512 * lba) buf 0 (512 * kept)) code moved
        total := by
  have hcommand : dr.command lba total 0x30 = dr.pause (Drive.accept lba (total - 1)) := by
    rw [Drive.command, if_neg (by simp), if_pos ⟨rfl, hin.trans hsize⟩]
  obtain ⟨hsettled, hwait⟩ :=
    dr.pause_ends ((Drive.accept_asks lba (total - 1)).not_busy (dr.periods 0).failure)
  rw [← hcommand, show Drive.accept lba (total - 1) (dr.periods 0).failure =
    Drive.awaits lba total (dr.periods 0).failure by
      rw [← Nat.sub_add_cancel hpos]; rfl] at hsettled
  rw [← hcommand] at hwait
  have hevolves : dr.Evolves (dr.command lba total 0x30) := by
    rw [hcommand]
    exact .pause dr dr.image _
  have himage : (dr.command lba total 0x30).image = dr.image := by
    rw [hcommand]
    rfl
  obtain ⟨code, moved, kept, dr', hrun, himage', _, hkept, hmoved, hall, _, hends⟩ :=
    run_write_sectors hbase (c.loaded d lba total) buf lba total 0 _ _ hsettled
  rw [himage, Nat.add_zero, Nat.mul_zero, Nat.sub_zero] at himage'
  refine ⟨code, moved, kept, (c.loaded d lba total).setCurrent dr', ?_, hkept, hmoved, hall,
    hends.called hquiet hevolves hwait (fun hs => hs 0) himage'⟩
  rw [writeDiskBlockProgram, run_start_command hbase hquiet hdrive hlba hpos hle (by decide) hin,
    hrun]

/-- Sectors that are written to a drive that is prompt and does not fail are read back, whatever
else the drive holds. -/
theorem written_sectors_read_back {d : DiskPorts} (hbase : d.baseDataPort + 7 < 65536) {c : Channel}
    (hquiet : c.Quiet) (hdrive : c.drive d.isMaster = some dr) (hsize : d.sectCount ≤ dr.size)
    (hprompt : dr.Prompt) (hsound : dr.Sound) {lba total : Nat} (hlba : lba < 268435456)
    (hpos : 1 ≤ total) (hle : total ≤ 256) (hin : lba + total ≤ d.sectCount)
    (buf buf' : ByteMem) : ∃ c',
      run (Channel.device d.baseDataPort) ((writeDiskBlockProgram d lba total buf).andThen
          fun _ => readDiskBlockProgram d lba total buf') c =
        (⟨0, total, buf'.copy 0 buf 0 (512 * total)⟩, c') ∧
      c'.Quiet ∧ c'.drive (!d.isMaster) = c.drive (!d.isMaster) := by
  obtain ⟨code, moved, kept, c₁, hwrite, _, _, hkept, hcalled⟩ :=
    write_disk_block_channel hbase hquiet hdrive hsize hlba hpos hle hin buf
  have hcode := hcalled.succeeds hprompt hsound
  obtain ⟨dr₁, hdrive₁, hevolves, himage⟩ := hcalled.drive
  have hsize₁ : d.sectCount ≤ dr₁.size := by
    rw [Drive.size, hevolves.identity]
    exact hsize
  obtain ⟨code', moved', c', hread, hcalled'⟩ := read_disk_block_channel hbase
    (hcalled.quiet hprompt) hdrive₁ hsize₁ hlba hpos hle hin buf'
  have hprompt₁ := hevolves.prompt hprompt
  have hcode' := hcalled'.succeeds hprompt₁ (hevolves.sound hsound)
  refine ⟨c', ?_, hcalled'.quiet hprompt₁, hcalled'.other.trans hcalled.other⟩
  rw [run_and_then, hwrite, hread, himage, hkept hcode, hcalled.all hcode, hcode',
    hcalled'.all hcode']
  congr 2
  funext x
  by_cases hx : x < 512 * total
  · rw [ByteMem.copy_inside (Nat.zero_le x) (by omega), ByteMem.copy_inside (by omega) (by omega),
      ByteMem.copy_inside (Nat.zero_le x) (by omega)]
    congr 1
    omega
  · rw [ByteMem.copy_outside (by omega), ByteMem.copy_outside (by omega)]

/-- A drive of 16 zeroed sectors that is never busy and never fails. -/
def blankDrive : Drive where
  image := fun _ => 0x00
  identity := fun i => if i = 120 then 16 else 0x00
  phase := .idle none
  periods := fun _ => ⟨[], none⟩

theorem blank_drive_prompt : blankDrive.Prompt := fun _ => Nat.zero_le _

/-- A channel with a blank drive as its master. -/
def blankChannel : Channel where
  count := 0
  lbaLow := 0
  lbaMid := 0
  lbaHigh := 0
  head := 0xe0
  drive := fun master => if master then some blankDrive else none

theorem blank_channel_drive {master : Bool} {dr : Drive}
    (h : blankChannel.drive master = some dr) : dr = blankDrive := by
  cases master with
  | true => exact (Option.some.inj h).symm
  | false => cases h

theorem blank_channel_quiet : blankChannel.Quiet := by
  intro master dr h
  rw [blank_channel_drive h]
  rfl

/-- Two sectors are written to a blank drive and read back. -/
theorem blank_sectors_read_back : ∃ c',
    run (Channel.device 0x1f0) ((writeDiskBlockProgram ⟨0x1f0, true, 16⟩ 3 2 fun _ => 0xff).andThen
        fun _ => readDiskBlockProgram ⟨0x1f0, true, 16⟩ 3 2 fun _ => 0x00) blankChannel =
      (⟨0, 2, ByteMem.copy (fun _ => 0x00) 0 (fun _ => 0xff) 0 (512 * 2)⟩, c') ∧
    c'.Quiet ∧ c'.drive (!true) = blankChannel.drive (!true) :=
  written_sectors_read_back (d := ⟨0x1f0, true, 16⟩) (by decide) blank_channel_quiet rfl
    (by decide) blank_drive_prompt (fun _ => rfl) (by decide) (by decide) (by decide) (by decide)
    _ _

end Ata

end Genesis32
