import RainWrt.Iwcap.Options
import RainWrt.Theorems.Iwcap

/-! Which command lines leave room in the ring. The size of the ring is checked when it is read, against the size of the frames that
    was read before. -/

namespace RainWrt.Iwcap

/-! ### The sizes that count -/

theorem option_r {g g' : Geometry} {n : Int} (h : g.option (.r n) = some g') :
    g' = { g with ringsz := (n % 2 ^ 32).toNat } ∧ 3 * g.pktcap ≤ (n % 2 ^ 32).toNat := by
  simp only [Geometry.option] at h
  split_ifs at h with hn
  exact ⟨(Option.some.inj h).symm, Nat.le_of_not_lt hn⟩

theorem option_c {g g' : Geometry} {n : Int} (h : g.option (.c n) = some g') : g' = { g with pktcap := (n % 2 ^ 16).toNat } := by
  simp only [Geometry.option] at h
  split_ifs at h
  exact (Option.some.inj h).symm

/-- The options are read in two parts. -/
theorem options_append {g g' : Geometry} {opts opts' : List Opt} :
    (opts ++ opts').foldlM Geometry.option g = some g' ↔
      ∃ g₁, opts.foldlM Geometry.option g = some g₁ ∧ opts'.foldlM Geometry.option g₁ = some g' := by
  rw [List.foldlM_append]
  exact Option.bind_eq_some_iff

theorem options_cons {g g' : Geometry} {o : Opt} {opts : List Opt} :
    (o :: opts).foldlM Geometry.option g = some g' ↔ ∃ g₁, g.option o = some g₁ ∧ opts.foldlM Geometry.option g₁ = some g' := by
  rw [List.foldlM_cons]
  exact Option.bind_eq_some_iff

/-- Only `-r` changes the size of the ring. -/
theorem ringsz_eq {g g' : Geometry} {opts : List Opt} (hr : ∀ n, .r n ∉ opts) (h : opts.foldlM Geometry.option g = some g') :
    g'.ringsz = g.ringsz := by
  induction opts generalizing g with
  | nil =>
    cases h
    rfl
  | cons o opts ih =>
    obtain ⟨g₁, h₁, h⟩ := options_cons.mp h
    have hrest := ih (fun n hn => hr n (List.mem_cons_of_mem _ hn)) h
    cases o with
    | r n => exact absurd List.mem_cons_self (hr n)
    | c n =>
      rw [hrest, option_c h₁]

/-- Only `-c` changes the size of the frames. -/
theorem pktcap_eq {g g' : Geometry} {opts : List Opt} (hc : ∀ n, .c n ∉ opts) (h : opts.foldlM Geometry.option g = some g') :
    g'.pktcap = g.pktcap := by
  induction opts generalizing g with
  | nil =>
    cases h
    rfl
  | cons o opts ih =>
    obtain ⟨g₁, h₁, h⟩ := options_cons.mp h
    have hrest := ih (fun n hn => hc n (List.mem_cons_of_mem _ hn)) h
    cases o with
    | r n =>
      rw [hrest, (option_r h₁).1]
    | c n => exact absurd List.mem_cons_self (hc n)

/-- The last element of a kind, if there is one. -/
theorem exists_last {α : Type} (p : α → Prop) (l : List α) :
    (∀ x ∈ l, ¬p x) ∨ ∃ before x after, l = before ++ x :: after ∧ p x ∧ ∀ y ∈ after, ¬p y := by
  induction l with
  | nil => exact Or.inl (by simp)
  | cons x l ih =>
    rcases ih with hnone | ⟨before, y, after, rfl, hy, hafter⟩
    · by_cases hx : p x
      · exact Or.inr ⟨[], x, l, rfl, hx, hnone⟩
      · exact Or.inl (by simpa [hx] using hnone)
    · exact Or.inr ⟨x :: before, y, after, rfl, hy, hafter⟩

/-- The last `-c`, where it stands behind the last `-r`, is at most a third of that. -/
def Room (opts : List Opt) : Prop :=
  ∀ before n mid m after, opts = before ++ .r n :: (mid ++ .c m :: after) → (∀ k, .r k ∉ mid ++ after) → (∀ k, .c k ∉ after) →
    3 * (m % 2 ^ 16).toNat ≤ (n % 2 ^ 32).toNat

/-- What the geometry is behind the last `-r`, and the last `-c` behind it. -/
theorem geometry_last {before mid after : List Opt} {n m : Int} {g : Geometry}
    (h : geometry (before ++ .r n :: (mid ++ .c m :: after)) = some g) (hr : ∀ k, .r k ∉ mid ++ after) (hc : ∀ k, .c k ∉ after) :
    g = ⟨(n % 2 ^ 32).toNat, (m % 2 ^ 16).toNat⟩ := by
  obtain ⟨g₁, -, h⟩ := options_append.mp h
  obtain ⟨g₂, h₂, h⟩ := options_cons.mp h
  obtain ⟨g₃, h₃, h⟩ := options_append.mp h
  obtain ⟨g₄, h₄, h⟩ := options_cons.mp h
  have hring : g.ringsz = (n % 2 ^ 32).toNat := by
    rw [ringsz_eq (fun k hk => hr k (List.mem_append_right _ hk)) h, option_c h₄,
      ringsz_eq (fun k hk => hr k (List.mem_append_left _ hk)) h₃, (option_r h₂).1]
  have hcap : g.pktcap = (m % 2 ^ 16).toNat := by rw [pktcap_eq hc h, option_c h₄]
  cases g
  simp_all

theorem fits_iff_room {opts : List Opt} {g : Geometry} (h : geometry opts = some g) : 3 * g.pktcap ≤ g.ringsz ↔ Room opts := by
  constructor
  · rintro hle before n mid m after rfl hr hc
    rwa [geometry_last h hr hc] at hle
  · intro hroom
    rcases exists_last (fun o => ∃ n, o = Opt.r n) opts with hnone | ⟨before, _, tail, rfl, ⟨n, rfl⟩, htail⟩
    · -- the ring keeps the size that it has without `-r`
      have hring := ringsz_eq (fun n hn => hnone _ hn ⟨n, rfl⟩) h
      have hcap := (geometry_bounds h).2
      rw [hring]
      dsimp only
      omega
    · rcases exists_last (fun o => ∃ n, o = Opt.c n) tail with hnone | ⟨mid, _, after, rfl, ⟨m, rfl⟩, hafter⟩
      · -- the check was made with the size of the frames at the end
        obtain ⟨g₁, -, h⟩ := options_append.mp h
        obtain ⟨g₂, h₂, h⟩ := options_cons.mp h
        rw [pktcap_eq (fun n hn => hnone _ hn ⟨n, rfl⟩) h, ringsz_eq (fun n hn => htail _ hn ⟨n, rfl⟩) h, (option_r h₂).1]
        exact (option_r h₂).2
      · have hr : ∀ k, .r k ∉ mid ++ after := fun k hk => htail (.r k)
          (by rcases List.mem_append.mp hk with hk | hk <;> simp [hk]) ⟨k, rfl⟩
        have hc : ∀ k, .c k ∉ after := fun k hk => hafter _ hk ⟨k, rfl⟩
        rw [geometry_last h hr hc]
        exact hroom before n mid m after rfl hr hc

/-! ### The ring -/

theorem round_len {filter : Filter} {pktcap : Nat} {s : Capture} (h : 0 < s.ring.len) (f : Option Frame) :
    ∃ s', round filter pktcap s f = some s' ∧ s'.ring.len = s.ring.len := by
  rcases round_cases filter pktcap s f with ⟨-, s', hs', hring⟩ | ⟨f', -, hround⟩
  · exact ⟨s', hs', by rw [hring]⟩
  · obtain ⟨r, hr, hlen⟩ : ∃ r, store pktcap s.ring f' = some r ∧ r.len = s.ring.len := by
      simp [store, ringbufAdd, Nat.ne_of_gt h]
    obtain ⟨s', hs', rfl⟩ := Option.map_eq_some_iff.mp (hround _ hr)
    exact ⟨s', hs', hlen⟩

/-- A ring with slots takes all frames. -/
theorem rounds_len {filter : Filter} {pktcap : Nat} {s : Capture} (h : 0 < s.ring.len) (frames : List (Option Frame)) :
    ∃ s', frames.foldlM (round filter pktcap) s = some s' ∧ s'.ring.len = s.ring.len := by
  induction frames generalizing s with
  | nil => exact ⟨s, rfl, rfl⟩
  | cons f frames ih =>
    obtain ⟨s₁, h₁, hlen₁⟩ := round_len h f
    obtain ⟨s₂, h₂, hlen₂⟩ := ih (hlen₁ ▸ h)
    exact ⟨s₂, by rw [List.foldlM_cons, h₁]; exact h₂, hlen₂.trans hlen₁⟩

/-- The ring has a slot, and remainders by the number of slots are taken for every frame and in every dump. And three packets
    fit. -/
def Options.Limits (v : Options) : Prop :=
  ∀ mem ring, v.ring mem = some ring → 0 < ring.len ∧
    (∀ frames, ∃ s, capture v.filter v.geometry mem frames = some s ∧ 0 < s.ring.len) ∧ 3 ≤ ring.len

theorem limits_iff_fits {v : Options} (hcap : 0 < v.geometry.pktcap) :
    v.Limits ↔ v.streaming = true ∨ 3 * v.geometry.pktcap ≤ v.geometry.ringsz := by
  unfold Options.Limits Options.ring
  cases v.streaming with
  | true => simp
  | false =>
    have hthree : 3 ≤ v.geometry.ringsz / v.geometry.pktcap ↔ 3 * v.geometry.pktcap ≤ v.geometry.ringsz := Nat.le_div_iff_mul_le hcap
    simp only [Bool.false_eq_true, if_false, Option.some.injEq, false_or]
    constructor
    · intro h
      exact hthree.mp (h [] _ rfl).2.2
    · rintro hle mem _ rfl
      have hlen : 3 ≤ (ringbufInit (v.geometry.ringsz / v.geometry.pktcap) v.geometry.pktcap mem).len := hthree.mpr hle
      have hpos := Nat.zero_lt_of_lt hlen
      refine ⟨hpos, fun frames => ?_, hlen⟩
      obtain ⟨s, hs, hslen⟩ := rounds_len (s := { ring := ringbufInit _ _ mem }) hpos frames
      exact ⟨s, hs, hslen ▸ hpos⟩

/-! ### The command line -/

variable {prog : String} {ifNametoindex : String → Nat} {isatty : Bool}

/-- An option is passed to the geometry, or leaves it. -/
theorem arg_ok {v v' : Options} {a : Arg} (h : v.arg prog ifNametoindex a = .ok v') :
    (a.opt.toList.foldlM Geometry.option v.geometry = some v'.geometry) ∧ (v'.streaming = true ↔ v.streaming = true ∨ a = .s) := by
  cases a with
  | i ifname =>
    simp only [Options.arg] at h
    split_ifs at h
    cases h
    simp [Arg.opt]
  | r n | c n =>
    simp only [Options.arg] at h
    split at h
    · cases h
    · rename_i geometry hg
      cases h
      simp [Arg.opt, hg]
  | h => cases h
  | s | o _ | B | D | f | unknown =>
    cases h
    simp [Arg.opt]

theorem args_ok {v v' : Options} {args : List Arg} (h : args.foldlM (Options.arg prog ifNametoindex) v = .ok v') :
    (args.filterMap Arg.opt).foldlM Geometry.option v.geometry = some v'.geometry ∧
      (v'.streaming = true ↔ v.streaming = true ∨ .s ∈ args) := by
  induction args generalizing v with
  | nil =>
    cases h
    simp
  | cons a args ih =>
    rw [List.foldlM_cons] at h
    cases h₁ : v.arg prog ifNametoindex a with
    | error e =>
      rw [h₁] at h
      cases h
    | ok v₁ =>
      rw [h₁] at h
      obtain ⟨hopt, hs⟩ := arg_ok h₁
      obtain ⟨hopts, hss⟩ := ih h
      have hsplit : (a :: args).filterMap Arg.opt = a.opt.toList ++ args.filterMap Arg.opt := by
        cases hopt : a.opt <;> simp [hopt]
      refine ⟨?_, ?_⟩
      · rw [hsplit]
        exact options_append.mpr ⟨_, hopt, hopts⟩
      · rw [hss, hs, List.mem_cons, or_assoc, eq_comm (a := a)]

theorem parse_ok {args : List Arg} {v : Options} (h : parse prog ifNametoindex isatty args = .ok v) :
    geometry (args.filterMap Arg.opt) = some v.geometry ∧ (v.streaming = true ↔ .s ∈ args) := by
  unfold parse at h
  cases hargs : args.foldlM (Options.arg prog ifNametoindex) {} with
  | error e =>
    rw [hargs] at h
    cases h
  | ok v₁ =>
    rw [hargs] at h
    have hv : v = v₁ := by
      replace h : v₁.check isatty = .ok v := h
      unfold Options.check at h
      split_ifs at h
      cases h
      rfl
    subst hv
    simpa [geometry] using args_ok hargs

/-- A command line that is accepted leaves room in the ring if it does not ask for one, or names no frames behind the size of the ring
    that are larger than a third of it. -/
theorem limits_iff {args : List Arg} {v : Options} (h : parse prog ifNametoindex isatty args = .ok v) :
    v.Limits ↔ .s ∈ args ∨ Room (args.filterMap Arg.opt) := by
  obtain ⟨hgeometry, hs⟩ := parse_ok h
  rw [limits_iff_fits (geometry_bounds hgeometry).1, hs, fits_iff_room hgeometry]

/-- Frames of 64 bytes are asked for, before the ring. -/
theorem limits_iff_small : ({ ifname := "wlan0", ifindex := 1, output := some "dump", geometry := ⟨4096, 64⟩ } : Options).Limits := by
  have hparse : parse "iwcap" (fun _ => 1) false [.i "wlan0", .o "dump", .c 64, .r 4096] =
      .ok { ifname := "wlan0", ifindex := 1, output := some "dump", geometry := ⟨4096, 64⟩ } := rfl
  refine (limits_iff hparse).mpr (Or.inr ?_)
  rintro before n mid m after h - -
  replace h : [.c 64, .r 4096] = before ++ .r n :: (mid ++ .c m :: after) := h
  match before, h with
  | [], h => cases h
  | [_], h => simp at h
  | _ :: _ :: _, h => simp at h

/-- No frame of this size fits into the ring. -/
theorem no_slots : ∃ v, parse "iwcap" (fun _ => 1) false [.i "wlan0", .o "dump", .r 4096, .c 8192] = .ok v ∧ ¬v.Limits := by
  refine ⟨_, rfl, fun h => ?_⟩
  exact absurd (h [] _ rfl).1 (by decide)

end RainWrt.Iwcap
