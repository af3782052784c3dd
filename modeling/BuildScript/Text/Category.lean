/-!
# General categories

The general category of every character, as the Unicode character database assigns it. The table
gives the runs of characters of one category from the first character on: the letter of the category
and the length of the run, which is left out for a single character.
-/

namespace BuildScript.Text

inductive Category where
  | Lu | Ll | Lt | Lm | Lo
  | Mn | Mc | Me
  | Nd | Nl | No
  | Pc | Pd | Ps | Pe | Pi | Pf | Po
  | Sm | Sc | Sk | So
  | Zs | Zl | Zp
  | Cc | Cf | Cs | Co | Cn
  deriving DecidableEq, Repr

namespace Category

/-- The category that a letter of the table stands for. -/
def ofLetter : Char → Category
  | 'A' => Lu
  | 'a' => Ll
  | 'T' => Lt
  | 'm' => Lm
  | 'L' => Lo
  | 'n' => Mn
  | 'c' => Mc
  | 'e' => Me
  | 'd' => Nd
  | 'l' => Nl
  | 'N' => No
  | 'U' => Pc
  | 'D' => Pd
  | 'P' => Ps
  | 'Q' => Pe
  | 'I' => Pi
  | 'F' => Pf
  | 'p' => Po
  | 'M' => Sm
  | 'S' => Sc
  | 'k' => Sk
  | 's' => So
  | 'Z' => Zs
  | 'Y' => Zl
  | 'X' => Zp
  | 'C' => Cc
  | 'f' => Cf
  | 'u' => Cs
  | 'O' => Co
  | _ => Cn

def isLetter : Category → Bool
  | Lu | Ll | Lt | Lm | Lo => true
  | _ => false

def isMark : Category → Bool
  | Mn | Mc | Me => true
  | _ => false

def isNumber : Category → Bool
  | Nd | Nl | No => true
  | _ => false

def table : List String :=
  ["C32Zp3Sp3PQpMpDp2d10p2M3p2A26PpQkUka26PMQMC33ZpS4spksLIMfsksMN2kap2kNLFN3pA23MA7a24Ma8AaAaAa",
    "AaAaAaAaAaAaAaAaAaAaAaAaAaAaAaAaAaAaAaAaAaAaAaAaAa2AaAaAaAaAaAaAaAa2AaAaAaAaAaAaAaAaAaAaAaAa",
    "AaAaAaAaAaAaAaAaAaAaAaA2aAaAa3A2aAaA2aA3a2A4aA2aA3a3A2aA2aAaAaA2aAa2AaA2aA3aAaA2a2LAa3L4ATaA",
    "TaATaAaAaAaAaAaAaAaAa2AaAaAaAaAaAaAaAaAa2ATaAaA3aAaAaAaAaAaAaAaAaAaAaAaAaAaAaAaAaAaAaAaAaAaA",
    "aAaAaAaAaAaAaAa7A2aA2a2AaA4aAaAaAaAa69La27m18k4m12k14m5k7mkmk17n112AaAamkAaV2ma3pAV4k2ApA3VA",
    "VA2aA17VA9a35Aa2A3a3AaAaAaAaAaAaAaAaAaAaAaAa5AaMAaA2a2A51a48AaAaAaAaAaAaAaAaAaAaAaAaAaAaAaAa",
    "Aasn5e2AaAaAaAaAaAaAaAaAaAaAaAaAaAaAaAaAaAaAaAaAaAaAaAaAaAaAaA2aAaAaAaAaAaAa2AaAaAaAaAaAaAaA",
    "aAaAaAaAaAaAaAaAaAaAaAaAaAaAaAaAaAaAaAaAaAaAaAaAaAaAaAaAaAaAaAaAaAaAaAaAaAaAaAaAaVA38V2mp6",
    "a41pDV2s2SVn45Dnpn2pn2pnV8L27V4L4p2V11f6M3p2Sp2s2n11pfp3L32mL10n21d10p4L2nL99pLn7fsn6m2n2sn4",
    "L2d10L3s2Lp14VfLnL30n27V2L89n11LV14d10L33n9m2sp3mV2nS2L22n4mn9mn3mn5V2p15VL25n3V2pVL11V5L24k",
    "L6Vf2V5n9L41mn24fn32cL54ncnLc3n8c4nc2Ln7L10n2p2d10pmL15nc2VL8V2L2V2L22VL7VLV3L4V2nLc3n4V2c2",
    "V2c2nLV8cV4L2VL3n2V2d10L2S2N6sSLpnV2n2cVL6V4L2V2L22VL7VL2VL2VL2V2nVc3n2V4n2V2n3V3nV7L4VLV7",
    "d10n2L3npV10n2cVL9VL3VL22VL7VL2VL5V2nLc3n5Vn2cVc2nV2LV15L2n2V2d10pSV7Ln6Vnc2VL8V2L2V2L22VL7V",
    "L2VL5V2nLcncn4V2c2V2c2nV7n2cV4L2VL3n2V2d10sLN6V10nLVL6V3L3VL4V3L2VLVL2V3L2V3L3V3L12V4c2nc2V3",
    "c3Vc3nV2LV6cV14d10N3s6SsV5nc3nL8VL3VL23VL16V2nLn3c4Vn3Vn4V7n2VL3V2LV2L2n2V2d10V7pN7sLnc2pL8V",
    "L3VL23VL10VL5V2nLcnc5Vnc2Vc2n2V7c2V6L2VL2n2V2d10VL2cV12n2c2L9VL3VL41n2Lc3n4Vc3Vc3nLsV4L3cN7",
    "L3n2V2d10N9sL6Vnc2VL18V3L24VL9VLV2L7V3nV4c3n3VnVc8V6d10V2c2pV12L48nL2n7V4SL6mn8pd10p2V37L2VL",
    "VL5VL24VLVL10nL2n9LV2L5VmVn7Vd10V2L4V32Ls3p15sps3n2s6d10N10snsnsnPQPQc2L8VL36V4n14cn5pn2L5",
    "n11Vn36Vs8ns6Vs2p5s4p2V37L43c2n4cn6cn2c2n2Ld10p6L6c2n2L4n3Lc3L2c7L3n4L13nc2n2c6nLcd10c3ns2",
    "A38VAV5AV2a43pma3L329VL4V2L7VLVL4V2L41VL4V2L33VL4V2L7VLVL4V2L15VL57VL4V2L67V2n3p9N20V3L16s10",
    "V6A86V2a6V2DL620spL17ZL26PQV3L75p3l3L8V7L18n3cV9L19n2cp2V9L18n2V12L13VL3Vn2V12L52n2cn7c8nc2",
    "n11p3mp3SLnV2d10V6N10V6p6Dp4n3fnd10V6L35mL53V7L5n2L34nLV5L70V10L31Vn3c4n2c3V4c2nc6n3V4sV3p2",
    "d10L30V2L5V11L44V4L26V6d10NV3s34L23n2c2nV2p2L53cncn7Vncnc2n8c6n10V2nd10V6d10V6p7mp6V2n14en16",
    "V49n4cL47ncn5cnc5nc2L8Vp2d10p7s10n9s9p3n2cL30cn4c2n2cn3L2d10L44ncn2c3ncn3c2V8p4L36c8n8c2n2V3",
    "p5d10V3L3d10L30m6p2a9AaV5A43V2A3p8V8n3pn13cn7L4nL6nL2cn2LV5a44m63a13ma34m37n64AaAaAaAaAaAaAa",
    "AaAaAaAaAaAaAaAaAaAaAaAaAaAaAaAaAaAaAaAaAaAaAaAaAaAaAaAaAaAaAaAaAaAaAaAaAaAaAaAaAaAaAaAaAaAa",
    "AaAaAaAaAaAaAaAaAaAaAaAaAaAaAaAaAaAaAaAaAaAa9AaAaAaAaAaAaAaAaAaAaAaAaAaAaAaAaAaAaAaAaAaAaAaA",
    "aAaAaAaAaAaAaAaAaAaAaAaAaAaAaAaAaAaAaAaAaAaAaAaAaAa9A8a6V2A6V2a8A8a8A8a6V2A6V2a8VAVAVAVAa8A8",
    "a14V2a8T8a8T8a8T8a5Va2A4Tkak3a3Va2A4Tk3a4V2a2A4Vk3a8A5k3V2a3Va2A4Tk2VZ11f5D6p2IFPI2FPIp8YXf5",
    "Zp9IFp4U2p3MPQp11MpUp10Zf5Vf10NmV2N6M3PQmN10M3PQVm13V3S33V15n13e4ne3n12V15s2As4As2aA3a2A3asA",
    "s2MA5s6AsAsAsA4saA4aL4as2a2A2M5Aa4sMs2asN16l35Aal4Ns2V4M5s5M2s4Ms2Ms2Ms7Ms31M2s2MsMs31M268s8",
    "PQPQs20M2s7PQs81Ms30M25s40M6s72V22s11V21N60s78N22s183Ms9Ms54M8s111Ms248PQPQPQPQPQPQPQN30s44",
    "M5PQM31PQPQPQPQPQM16s256M131PQPQPQPQPQPQPQPQPQPQPQM63PQPQM32PQM258s48M21s2M6s39V2s32Vs105A48",
    "a48AaA3a2AaAaAaA4aAa2Aa6m2A3aAaAaAaAaAaAaAaAaAaAaAaAaAaAaAaAaAaAaAaAaAaAaAaAaAaAaAaAaAaAaAaA",
    "aAaAaAaAaAaAaAaAaAaAaAaAaAaAaAaAaAa2s6AaAan3AaV5p4Np2a38VaV5aV2L56V7mpV14nL23V9L7VL7VL7VL7V",
    "L7VL7VL7VL7Vn32p2IFIFp3IFpIFp9Dp2DpIFp2IFPQPQPQPQp5mp10D2p4DpPp13s2p3PQPQPQPQDV34s26Vs89V12",
    "s214V26s16Zp3smLlPQPQPQPQPQs2PQPQPQPQDPQ2sl9n4c2Dm5s2l3mLps2VL86V2n2k2m2LDL90pm3LV5L43VL94V",
    "s2N4s10L32s38V9sL16s31VN10s30N8sN15s32N10s39N15s320L6592s64L21013mL1143V3s55V9L40m6p2L268mp3",
    "L16d10L2V20AaAaAaAaAaAaAaAaAaAaAaAaAaAaAaAaAaAaAaAaAaAaAaLne3pn10pmAaAaAaAaAaAaAaAaAaAaAaAaA",
    "aAam2n2L70l10n2p6V8k23m9k2AaAaAaAaAaAaAa3AaAaAaAaAaAaAaAaAaAaAaAaAaAaAaAaAaAaAaAaAaAaAaAaAaA",
    "aAaAaAaAaAama8AaAaA2aAaAaAaAamk2AaAaLAaAa3AaAaAaAaAaAaAaAaAaAaA5aA5aAaAaAaAaAaAaAaA4aAaA2aV2",
    "AaVaVaAaAaAaAV21m3AaLm2aL7nL3nL4nL23c2n2cs4nV3N6s2SsV6L52p4V8c2L50c16n2V8p2d10V6n18L6p3LpL2n",
    "d10L28n8p2L23n11c2V11pL29V3n3cL47nc2n4c2n2c3p13Vmd10V4p2L5nmL9d10L5VL41n6c2n2c2n2V9L3nL8ncV2",
    "d10V2p4L16mL6s3LcncL50nLn3L2n2L5n2LnLV24L2mp2L11cn2c2p2Lm2cnV10L6V2L6V2L6V9L7VL7Va43km4a9mk2",
    "V4a80L35c2nc2nc2pcnV2d10V6L11172V12L23V4L49V4u2048O6400L366V2L106V38a7V12a5V5LnL10ML13VL5VLV",
    "L2VL2VL108k17V16L363QPs16L64V2L54V7sV32L12Ss3n16p7PQpV6n16pD2U2PQPQPQPQPQPQPQPQp2PQp4U3p3Vp4",
    "DPQPQPQp3MDM3VpSp2V4L5VL135V2fVp3Sp3PQpMpDp2d10p2M3p2A26PpQkUka26PMQMPQpPQp2L10mL45m2L31V3L6",
    "V2L6V2L6V2L3V3S2MksS2VsM4s2V10f3s2V2L12VL26VL19VL2VL15V2L14V34L123V5p3V4N45V3s9l53N4s17N2s3V",
    "s13V3sV47s45nV130L29V3L49V15nN27V4L32N4V9L20lL8lV5L38n5V5L30VpL36V4L8pl5V42A40a40L78V2d10V6",
    "A36V4a36V4L40V8L52V11pA11VA15VA7VA2Va11Va15Va7Va2V3L52V12L311V9L22V10L8V24m6Vm42Vm9V69L6V2LV",
    "L44VL2V3LV2L23VpN8L23s2N7L31V8N9V48L19VL2V5N5L22N6V3pL26V5pV64L56V4N2L2N16V2N46Ln3Vn2V5n4L4V",
    "L3VL29V2n3V4nN9V7p9V7L29N2pL29N3V32L8sL28n2V4N5p7V9L54V3p7L22V2N8L19V5N8L18V7p4V12N7V80L73",
    "V55A51V13a51V7N6L36n4V8d10V6d10L4mLA22V3n5Dma22V8M2V208N31VL42Vn2DV2L2V16L3V55n4L29N10LV8L22",
    "n11N4p5V22L18n4p4V38L21N7V20L23V9cncL53n15p7V4N20d10nL2n2LV9n3cL45c3n4c2n2p2fp4nV10fV2L25V7",
    "d10V6n3L36n5cn8Vd10p4Lc2LV8L35np2LV9n2cL48c3n9c2L4p4n4pcnd10LpLp3VN20V11L18VL25c3n3c2ncn2p6n",
    "L2nV62L7VLVL4VL15VL10pV6L47nc3n8V5d10V6n2c2VL8V2L2V2L22VL7VL2VL5Vn2Lc2nc4V2c2V2c3V2LV6cV5L5",
    "c2V2n7V3n5V11L10VLV2LVL38VLc3n6VcV2cVc4Vc2ncnLnLp2Vp2V8n2V29L53c3n8c2n3cnL4p5d10p2VpnL3V30",
    "L48c3n6cnc4n2cn2L2pLV8d10V166L47c3n4V2c4n2cn2p23L4n2V34L48c3n8c2ncn2p3LV11d10V6p13V19L43ncn",
    "c2n6cnLpV6d10V6d20V28L27V2ncnc2n4cn5V4d10N2p3sL7V185L44c3n9cn2pV100A32a32d10N9V12L8V2LV2L8V",
    "L2VL24c6Vc2V2n2cnLcLcnp3V9d10V70L8V2L39c3n4V2n2c4nLpLcV27Ln10L40n6cLn4p8nV8Ln6c2n3L46n13cn2",
    "p3Lp5V13L73V7p10V182L33pV14d10V6L9VL37cn7Vn6cnLp5V10d10N19V3p2L30V2n22Vcn7cn2cn2V73L7VL2VL38",
    "n6V3nVn2Vn7LnV8d10V6L6VL2VL32c5Vn2Vc2ncnLV7d10V310L19n2c2p2V7n2LcL13VL34c2n5V3c2ncnp13d10n",
    "V85LV15N21s8S4s17V13pL922V102l111Vp5V11L196V2636L97p2V13L1072f16nL6n15V10L3995V5L583V6841L30",
    "n12c3n3d10V1734L569V7L31Vd10V4p2L79Vd10V6L30V2n5pV10L48n7p5s4m4psV10d10VN7VL21V5L19V432m3L40",
    "m2p3d10V198A32a32N23p4V101L75V4nLc55V7n4m13V64m2pmnV11c2V14L6136V8L1238V41L10V8935m4Vm7Vm2V",
    "L291V15LV29L3V2LV14L4V8L396V2308L107V5L13V3L9V7L10V2sn2pf4V3932s240d10V6s436V76n46V2n23V9",
    "s116V60s246V10s39V2s60c2n3s3c6f8n8s2n7s30n4s61V21s66n3sV122N20V12N20V12s87V9N25V135A26a26A26",
    "a7Va18A26a26AVA2V2AV2A2V2A4VA8a4VaVa7Va11A26a26A2VA4V2A8VA7Va26A2VA4VA5VAV3A7Va26A26a26A26",
    "a26A26a26A26a26A26a26A26a28V2A25Ma25Ma6A25Ma25Ma6A25Ma25Ma6A25Ma25Ma6A25Ma25Ma6AaV2d50s512",
    "n55s4n50s8ns14ns2p5V15n5Vn15V1104a10La20V6a6V213n7Vn17V2n7Vn2Vn5V5m62V33nV112L45V3n7m7V2d10",
    "V4LsV320L30nV17L44n4d10V5SV464L27mn4d10V214L30n2Ld10V4pV480L7VL4VL2VL15VL197V2N9n7V41A34a34",
    "n7mV4d10V4p2V785N59sN3SN4V76N45sN15V194L4VL27VL2VLV2LVL10VL4VLVLV6LV4LVLVLVL3VL2VLV2LVLVLVLV",
    "LVL2VLV2L4VL7VL4VL4VLVL10VL17V5L3VL5VL17V52M2V270s44V4s100V12s15V2s15Vs15Vs37V10N13s161V56",
    "s29V13s44V4s9V7s2V14s6V154s251k5s728V4s17V3s13V3s119V4s95V6s12V4sV15s12V4s56V8s10V6s40V8s30",
    "V2s12V4s2V62s340V12s14V2s13V3s10V5s56V7s15V2s11V6s9V7s147Vs92d10V1030L42720V32L4154V6L222V2",
    "L5762V14L7473V15L622V2466L542V1506L4939V5L4192V711761fV30f96V128n240V65040O65534V2O65534V2"]

/-- The runs of a table: the category of each and the first character behind it. `length` is the
number read so far for the run of `letter`. -/
def runsFrom (start : Nat) (letter : Char) (length : Nat) : List Char → List (Nat × Category)
  | [] => [(start + max length 1, ofLetter letter)]
  | c :: rest =>
    if c.isDigit then runsFrom start letter (length * 10 + (c.toNat - '0'.toNat)) rest
    else
      let stop := start + max length 1
      (stop, ofLetter letter) :: runsFrom stop c 0 rest

/-- The runs of a whole table, from its first letter on. -/
def runsOf : List Char → List (Nat × Category)
  | [] => []
  | letter :: rest => runsFrom 0 letter 0 rest

def runs : List (Nat × Category) := runsOf (table.flatMap String.toList)

/-- The category of the first run that ends behind the character. -/
def of (c : Char) : Category :=
  match runs.find? fun run => c.toNat < run.1 with
  | some (_, category) => category
  | none => Cn

end Category

end BuildScript.Text
