import Mathlib

/-! `wifi/hostapd.uc` and `wifi/ap.uc`: the configuration that is written for hostapd from the options and the
capabilities of the phy, less the lines that only copy an option. -/

namespace RainWrt.Wifi.Hostapd

inductive Band where
  | g2
  | g5
  | g60
  | g6
  deriving DecidableEq

inductive HwMode where
  | a
  | b
  | g
  | ad
  deriving DecidableEq

inductive HtMode where
  | noht
  | ht20
  | ht40minus
  | ht40plus
  | ht40
  | vht20
  | vht40
  | vht80
  | vht160
  | he20
  | he40
  | he80
  | he160
  | eht20
  | eht40
  | eht80
  | eht160
  | eht320
  deriving DecidableEq

/-! ### Capability tokens -/

/-- The tokens of `ht_capab`. -/
inductive HtToken where
  | ht40plus
  | ht40minus
  | ldpc
  | gf
  | shortGi20
  | shortGi40
  | txStbc
  | maxAmsdu7935
  | dsssCck40
  | rxStbc (n : Nat)
  | null
  deriving DecidableEq

/-- The tokens of `vht_capab`. -/
inductive VhtToken where
  | rxldpc
  | shortGi80
  | shortGi160
  | txStbc2by1
  | suBeamformer
  | suBeamformee
  | muBeamformer
  | muBeamformee
  | vhtTxopPs
  | htcVht
  | rxAntennaPattern
  | txAntennaPattern
  | rxStbc (n : Nat)
  | soundingDimension (n : Int)
  | bfAntenna (n : Int)
  | vht160_80plus80
  | vht160
  | maxMpdu (n : Nat)
  | maxAMpduLenExp (n : Nat)
  | vhtLinkAdapt (n : Nat)
  | null
  deriving DecidableEq

def HtToken.text : HtToken → String
  | ht40plus => "[HT40+]"
  | ht40minus => "[HT40-]"
  | ldpc => "[LDPC]"
  | gf => "[GF]"
  | shortGi20 => "[SHORT-GI-20]"
  | shortGi40 => "[SHORT-GI-40]"
  | txStbc => "[TX-STBC]"
  | maxAmsdu7935 => "[MAX-AMSDU-7935]"
  | dsssCck40 => "[DSSS_CCK-40]"
  | rxStbc n => "[RX-STBC" ++ String.join ((List.range n).map fun i => toString (i + 1)) ++ "]"
  | null => "null"

def VhtToken.text : VhtToken → String
  | rxldpc => "[RXLDPC]"
  | shortGi80 => "[SHORT-GI-80]"
  | shortGi160 => "[SHORT-GI-160]"
  | txStbc2by1 => "[TX-STBC-2BY1]"
  | suBeamformer => "[SU-BEAMFORMER]"
  | suBeamformee => "[SU-BEAMFORMEE]"
  | muBeamformer => "[MU-BEAMFORMER]"
  | muBeamformee => "[MU-BEAMFORMEE]"
  | vhtTxopPs => "[VHT-TXOP-PS]"
  | htcVht => "[HTC-VHT]"
  | rxAntennaPattern => "[RX-ANTENNA-PATTERN]"
  | txAntennaPattern => "[TX-ANTENNA-PATTERN]"
  | rxStbc n => "[RX-STBC-" ++ String.join ((List.range n).map fun i => toString (i + 1)) ++ "]"
  | soundingDimension n => "[SOUNDING-DIMENSION-" ++ toString n ++ "]"
  | bfAntenna n => "[BF-ANTENNA-" ++ toString n ++ "]"
  | vht160_80plus80 => "[VHT160-80PLUS80]"
  | vht160 => "[VHT160]"
  | maxMpdu n => "[MAX-MPDU-" ++ toString n ++ "]"
  | maxAMpduLenExp n => "[MAX-A-MPDU-LEN-EXP" ++ toString n ++ "]"
  | vhtLinkAdapt n => "[VHT-LINK-ADAPT-" ++ toString n ++ "]"
  | null => "null"

/-- The value of an option. -/
inductive Value where
  | num (n : Int)
  | bool (b : Bool)
  | ht (tokens : List HtToken)
  | vht (tokens : List VhtToken)

abbrev Line := String × Value

/-- `append`; a value that is null is left out. -/
def append (key : String) (value : Option Value) : List Line := (value.map fun v => (key, v)).toList

/-- An index of an array, which counts from the end where it is negative. -/
def arrayAt {α : Type} (xs : List α) (i : Int) : Option α :=
  if 0 ≤ i then xs[i.toNat]? else if -(xs.length : Int) ≤ i then xs[(i + xs.length).toNat]? else none

/-! ### The phy -/

structure IftypeData where
  /-- `iftypes.ap`. -/
  ap : Bool
  heCapMac : List Nat
  heCapPhy : List Nat

structure BandInfo where
  htCapa : Option Nat := none
  vhtCapa : Option Nat := none
  iftypeData : List IftypeData := []

/-- `wiphy_info`. -/
structure Wiphy where
  wiphyBands : Band → Option BandInfo
  extendedFeatures : List Nat

/-- `phy_capabilities`. -/
structure Capabilities where
  htCapa : Nat
  vhtCapa : Nat
  heMacCap : List Nat
  hePhyCap : List Nat

/-- `phy_features`. -/
structure Features where
  ftmResponder : Bool
  radarBackground : Bool

def enableFtmResponder : Nat := 33

def radarBackground : Nat := 61

def deviceExtendedFeatures (data : List Nat) (flag : Nat) : Bool := data.getD (flag / 8) 0 ||| 1 <<< (flag % 8) != 0

/-- `device_capabilities`, for the band of the configuration. -/
def deviceCapabilities (phy : Wiphy) (band : Band) : Option (Capabilities × Features) := do
  let info ← phy.wiphyBands band
  let he := info.iftypeData.foldl (fun he t => if t.ap then (t.heCapMac, t.heCapPhy) else he) ([], [])
  return ({ htCapa := info.htCapa.getD 0, vhtCapa := info.vhtCapa.getD 0, heMacCap := he.1, hePhyCap := he.2 },
    { ftmResponder := deviceExtendedFeatures phy.extendedFeatures enableFtmResponder,
      radarBackground := deviceExtendedFeatures phy.extendedFeatures radarBackground })

/-! ### The radio -/

/-- The options of a radio. -/
structure Config where
  band : Band
  htmode : HtMode
  /-- 0 is an automatic channel. -/
  channel : Nat
  enableBackgroundRadar : Option Bool := none
  htCoex : Option Bool := none
  ldpc : Bool := true
  greenfield : Bool := false
  shortGi20 : Bool := true
  shortGi40 : Bool := true
  txStbc : Bool := true
  maxAmsdu : Bool := true
  dsssCck40 : Bool := true
  rxStbc : Int := 3
  rxldpc : Bool := true
  shortGi80 : Bool := true
  shortGi160 : Bool := true
  txStbc2by1 : Bool := true
  suBeamformer : Bool := true
  suBeamformee : Bool := true
  muBeamformer : Bool := true
  muBeamformee : Bool := true
  vhtTxopPs : Bool := true
  htcVht : Bool := true
  rxAntennaPattern : Bool := true
  txAntennaPattern : Bool := true
  beamformerAntennas : Int := 4
  beamformeeAntennas : Int := 4
  vht160 : Int := 2
  vhtMaxMpdu : Int := 11454
  vhtMaxAMpduLenExp : Int := 7
  vhtLinkAdapt : Int := 0
  heSuBeamformer : Bool := true
  heSuBeamformee : Bool := true
  heMuBeamformer : Bool := true
  heTwtRequired : Bool := false
  heSprPsrEnabled : Bool := false
  heBssColorEnabled : Bool := true
  heBssColor : Int := 128
  heSprNonSrgObssPdMaxOffset : Option Int := none
  /-- Bit 0 forbids reuse by what a frame announces (PSR). -/
  heSprSrControl : Int := 3

/-- `set_device_defaults`, where the band is known. -/
def setDeviceDefaults : Band → HwMode
  | .g2 => .g
  | .g5 | .g6 => .a
  | .g60 => .ad

namespace Config

def hwMode (config : Config) : HwMode := setDeviceDefaults config.band

def channelOffset (config : Config) : Nat := if config.band = .g6 then 1 else 0

def modes20 : List HtMode := [.vht20, .ht20, .he20, .eht20]

def modes40 : List HtMode := [.ht40, .ht40plus, .ht40minus, .vht40, .vht80, .vht160, .he40, .he80, .he160, .eht40, .eht80, .eht160]

def ieee80211n (config : Config) : Bool := config.band ≠ .g6 && (config.htmode ∈ modes20 || config.htmode ∈ modes40)

/-- The token of the secondary channel. -/
def secondary (config : Config) : List HtToken :=
  if config.htmode ∈ modes40 then
    if config.channel = 0 then [.ht40plus]
    else
      match config.hwMode with
      | .a => if (config.channel / 4 + config.channelOffset) % 2 = 0 then [.ht40minus] else [.ht40plus]
      | _ =>
        match config.htmode with
        | .ht40plus => [.ht40plus]
        | .ht40minus => [.ht40minus]
        | _ => if config.channel < 7 then [.ht40plus] else [.ht40minus]
  else []

/-- A token that is appended on a condition. -/
def token {τ : Type} (cond : Bool) (t : τ) : List τ := if cond then [t] else []

/-- A token for a bit of the capabilities and an option. -/
def flag {τ : Type} (cap mask : Nat) (option : Bool) (t : τ) : List τ := token (cap &&& mask != 0 && option) t

def htRxStbc : List (List HtToken) := [[], [.rxStbc 1], [.rxStbc 2], [.rxStbc 3]]

def htCapab (config : Config) (cap : Nat) : List HtToken :=
  [config.secondary,
   flag cap 0x1 config.ldpc .ldpc,
   flag cap 0x10 config.greenfield .gf,
   flag cap 0x20 config.shortGi20 .shortGi20,
   flag cap 0x40 config.shortGi40 .shortGi40,
   flag cap 0x80 config.txStbc .txStbc,
   flag cap 0x800 config.maxAmsdu .maxAmsdu7935,
   flag cap 0x1000 config.dsssCck40 .dsssCck40,
   (arrayAt htRxStbc (min config.rxStbc (((cap >>> 8) &&& 3 : Nat) : Int))).getD [.null]].flatten

/-! ### The channel -/

/-- The channel parameters of 802.11ac, ax and be. -/
structure Oper where
  ieee80211ac : Bool := true
  vhtOperChwidth : Int := 0
  vhtOperCentrFreqSeg0Idx : Int := 0
  ehtOperChwidth : Int := 0
  ehtOperCentrFreqSeg0Idx : Int := 0
  heOperChwidth : Option Int := none
  heOperCentrFreqSeg0Idx : Option Int := none
  opClass : Option Int := none

def map160 (config : Config) : List (Nat × Nat) :=
  if config.band = .g6 then [(29, 15), (61, 47), (93, 79), (125, 111), (157, 143), (189, 175), (221, 207)]
  else [(64, 50), (128, 114), (177, 163)]

/-- The channel of 802.11ac. -/
def vhtOper (config : Config) : Oper :=
  let position := config.channel / 4 + config.channelOffset
  match config.htmode with
  | .vht20 | .he20 | .eht20 => {}
  | .vht40 | .he40 | .eht40 =>
    { vhtOperCentrFreqSeg0Idx := config.channel + (if position % 2 = 0 then -2 else 2) }
  | .vht80 | .he80 | .eht80 =>
    { vhtOperCentrFreqSeg0Idx := config.channel + ([-6, 6, 2, -2] : List Int).getD (position % 4) 0, vhtOperChwidth := 1 }
  | .vht160 | .he160 | .eht160 =>
    { vhtOperCentrFreqSeg0Idx :=
        match config.map160.find? fun v => v.1 ≤ config.channel + 28 && config.channel ≤ v.1 with
        | some v => v.2
        | none => 0
      vhtOperChwidth := 2 }
  | _ => { ieee80211ac := false }

/-- The center of a channel of 320 MHz. -/
def seg0Of320 (config : Config) (idx : Int) : Int :=
  match [(61, 31), (125, 95), (189, 159), (221, 191)].find? fun (v : Nat × Nat) => config.channel ≤ v.1 with
  | some v => v.2
  | none => idx

/-- The channel of 802.11be, and of 802.11ax in the 6 GHz band. -/
def oper (config : Config) : Oper :=
  let o := config.vhtOper
  let o := { o with ehtOperChwidth := o.vhtOperChwidth, ehtOperCentrFreqSeg0Idx := o.vhtOperCentrFreqSeg0Idx }
  if config.band ≠ .g6 then o
  else
    let o := { o with ieee80211ac := false }
    match config.htmode with
    | .he20 | .eht20 => { o with opClass := some 131 }
    | .eht320 =>
      let seg0 := config.seg0Of320 o.ehtOperCentrFreqSeg0Idx
      { o with
        ehtOperCentrFreqSeg0Idx := seg0
        opClass := some 137
        ehtOperChwidth := 7
        heOperChwidth := some 3
        heOperCentrFreqSeg0Idx := some (if (config.channel : Int) < seg0 then seg0 - 16 else seg0 + 16) }
    | .he40 | .he80 | .he160 | .eht40 | .eht80 | .eht160 => { o with opClass := some (132 + o.ehtOperChwidth) }
    | _ => o

/-! ### 802.11ac -/

def vhtRxStbc : List (List VhtToken) := [[], [.rxStbc 1], [.rxStbc 2], [.rxStbc 3], [.rxStbc 4]]

/-- The flags of `vht_capab`. -/
def vhtFlags (config : Config) (shortGi160 : Bool) (cap : Nat) : List VhtToken :=
  [flag cap 0x10 config.rxldpc .rxldpc,
   flag cap 0x20 config.shortGi80 .shortGi80,
   flag cap 0x40 shortGi160 .shortGi160,
   flag cap 0x80 config.txStbc2by1 .txStbc2by1,
   flag cap 0x800 config.suBeamformer .suBeamformer,
   flag cap 0x1000 config.suBeamformee .suBeamformee,
   flag cap 0x80000 config.muBeamformer .muBeamformer,
   flag cap 0x100000 config.muBeamformee .muBeamformee,
   flag cap 0x200000 config.vhtTxopPs .vhtTxopPs,
   flag cap 0x400000 config.htcVht .htcVht,
   flag cap 0x10000000 config.rxAntennaPattern .rxAntennaPattern,
   flag cap 0x20000000 config.txAntennaPattern .txAntennaPattern].flatten

/-- The numbers of chains and antennas. -/
def vhtAntennas (config : Config) (cap : Nat) : List VhtToken :=
  (arrayAt vhtRxStbc (min config.rxStbc (((cap >>> 8) &&& 7 : Nat) : Int))).getD [.null] ++
  flag cap 0x800 config.suBeamformer
    (.soundingDimension (min ((((cap >>> 16) &&& 3 : Nat) : Int) + 1) config.beamformerAntennas)) ++
  flag cap 0x1000 config.suBeamformee
    (.bfAntenna (min ((((cap >>> 13) &&& 3 : Nat) : Int) + 1) config.beamformeeAntennas))

/-- Channel widths, lengths and link adaptation. -/
def vhtLimits (config : Config) (vht160 : Int) (cap : Nat) : List VhtToken :=
  let maxAMpduLenExp := (cap >>> 20) &&& 0x38
  let linkAdapt := cap &&& 0xC000000
  (if cap &&& 0xc = 8 ∧ 2 ≤ vht160 then [.vht160_80plus80]
    else token ((cap &&& 0xc == 4 || cap &&& 0xc == 8) && 1 ≤ vht160) .vht160) ++
  (if 1 < cap &&& 3 ∧ 11454 ≤ config.vhtMaxMpdu then [.maxMpdu 11454]
    else token (cap &&& 3 != 0 && 7991 ≤ config.vhtMaxMpdu) (.maxMpdu 7991)) ++
  (([7, 6, 5, 4, 3, 2, 1].find? fun exp => 8 * exp ≤ maxAMpduLenExp && (exp : Int) ≤ config.vhtMaxAMpduLenExp).map
    VhtToken.maxAMpduLenExp).toList ++
  token (0xC000000 ≤ linkAdapt && 3 < config.vhtLinkAdapt) (.vhtLinkAdapt 3) ++
  token (0x8000000 ≤ linkAdapt && 2 < config.vhtLinkAdapt) (.vhtLinkAdapt 2)

/-- `vht_capab`, with the options `vht160` and `short_gi_160` that fit the width of the channel. -/
def vhtCapab (config : Config) (cap : Nat) : List VhtToken :=
  let narrow : Bool := config.oper.vhtOperChwidth < 2
  config.vhtFlags (!narrow && config.shortGi160) cap ++ config.vhtAntennas cap ++
    config.vhtLimits (if narrow then 0 else config.vht160) cap

/-! ### 802.11ax -/

def heModes : List HtMode := [.he20, .he40, .he80, .he160]

def ehtModes : List HtMode := [.eht20, .eht40, .eht80, .eht160, .eht320]

/-- A feature of 802.11ax, which is turned off where a bit is clear. -/
def heFeature (value : Bool) (cap : List Nat) (i mask : Nat) : Bool := if cap.getD i 0 &&& mask = 0 then false else value

/-- `he_spr_sr_control` as it is written; `he_spr_psr_enabled` is turned off by the phy's bit only behind it. -/
def srControl (config : Config) : Int :=
  let control := config.heSprSrControl
  let control := if config.heSprNonSrgObssPdMaxOffset.any (· ≠ 0) then control.lor ((1 <<< 2 : Nat) : Int) else control
  if !config.heSprPsrEnabled then control.lor 1 else control

def heSpr (config : Config) : List Line :=
  if config.heBssColorEnabled then
    append "he_bss_color" (some (.num config.heBssColor)) ++
    append "he_spr_non_srg_obss_pd_max_offset" (config.heSprNonSrgObssPdMaxOffset.map .num) ++
    append "he_spr_sr_control" (some (.num config.srControl))
  else []

def he (config : Config) (caps : Capabilities) : List Line :=
  let o := config.oper
  let fromVht (he : Option Int) (vht : Int) : Option Int := if config.hwMode = .a ∧ he.getD 0 = 0 then some vht else he
  config.heSpr ++
  append "ieee80211ax" (some (.bool true)) ++
  append "he_oper_chwidth" ((fromVht o.heOperChwidth o.vhtOperChwidth).map .num) ++
  append "he_oper_centr_freq_seg0_idx" ((fromVht o.heOperCentrFreqSeg0Idx o.vhtOperCentrFreqSeg0Idx).map .num) ++
  append "he_su_beamformer" (some (.bool (heFeature config.heSuBeamformer caps.hePhyCap 3 0x80))) ++
  append "he_su_beamformee" (some (.bool (heFeature config.heSuBeamformee caps.hePhyCap 4 0x1))) ++
  append "he_mu_beamformer" (some (.bool (heFeature config.heMuBeamformer caps.hePhyCap 4 0x2))) ++
  append "he_twt_required" (some (.bool (heFeature config.heTwtRequired caps.heMacCap 0 0x1)))

/-- `device_htmode_append` -/
def deviceHtmodeAppend (config : Config) (caps : Capabilities) : List Line :=
  let o := config.oper
  (if config.ieee80211n then
    append "ieee80211n" (some (.num 1)) ++
    append "ht_coex" (config.htCoex.map .bool) ++
    append "ht_capab" (some (.ht (config.htCapab caps.htCapa)))
  else []) ++
  (if config.band = .g6 then append "op_class" (o.opClass.map .num) else []) ++
  (if o.ieee80211ac ∧ config.hwMode = .a then
    append "ieee80211ac" (some (.num 1)) ++
    append "vht_oper_chwidth" (some (.num o.vhtOperChwidth)) ++
    append "vht_oper_centr_freq_seg0_idx" (some (.num o.vhtOperCentrFreqSeg0Idx)) ++
    append "vht_capab" (some (.vht (config.vhtCapab caps.vhtCapa)))
  else []) ++
  (if config.htmode ∈ heModes ∨ config.htmode ∈ ehtModes then config.he caps else []) ++
  (if config.htmode ∈ ehtModes then
    append "ieee80211be" (some (.bool true)) ++
    (if config.hwMode = .a then
      append "eht_oper_chwidth" (some (.num o.ehtOperChwidth)) ++
      append "eht_oper_centr_freq_seg0_idx" (some (.num o.ehtOperCentrFreqSeg0Idx))
    else [])
  else [])

/-- `generate`. -/
def generate (config : Config) (caps : Capabilities) (features : Features) : List Line :=
  let radar := if !features.radarBackground || config.band ≠ .g5 then none else some (config.enableBackgroundRadar.getD false)
  append "enable_background_radar" (radar.map .bool) ++ config.deviceHtmodeAppend caps

end Config

/-! ### The interfaces -/

/-- The options of an interface. -/
structure Iface where
  /-- `mode` is `ap`. -/
  ap : Bool := true
  /-- `encryption` is `owe`, with `owe_transition`. -/
  oweTransition : Bool := false
  ieee80211k : Option Bool := none
  rrmNeighborReport : Option Bool := none
  rrmBeaconReport : Option Bool := none
  rnr : Option Bool := none
  ftmResponder : Option Bool := none

namespace Iface

/-- `iface_rrm` -/
def rrm (config : Iface) : List Line :=
  append "rrm_neighbor_report" ((config.rrmNeighborReport.or config.ieee80211k).map .bool) ++
  append "rrm_beacon_report" ((config.rrmBeaconReport.or config.ieee80211k).map .bool) ++
  append "rnr" (config.rnr.map .bool) ++
  append "ftm_responder" (config.ftmResponder.map .bool)

/-- `iface_ftm` -/
def ftm (config : Iface) (features : Features) : List Line :=
  if !features.ftmResponder || !config.ftmResponder.getD false then []
  else append "ftm_responder" (config.ftmResponder.map .bool)

/-- `ap.generate`. -/
def generate (config : Iface) (features : Features) : List Line := config.rrm ++ config.ftm features

/-- `setup_interface`, twice for an interface that is in transition. -/
def setup (config : Iface) (features : Features) : List Line :=
  if !config.ap then []
  else if config.oweTransition then config.generate features ++ config.generate features
  else config.generate features

end Iface

/-- `setup`; without the band of the configuration the phy has no capabilities to read. -/
def setup (phy : Wiphy) (config : Config) (interfaces : List Iface) : Option (List Line) := do
  let (caps, features) ← deviceCapabilities phy config.band
  return config.generate caps features ++ interfaces.flatMap (·.setup features)

end RainWrt.Wifi.Hostapd
