/-!
# Scripts

The characters of every script, as the Unicode character database assigns them, and the characters
that several scripts share. A row of characters is written as its first character in hexadecimal
digits. A plus sign and a number stand for that many characters behind it, a slash for that many of
every second one.
-/

namespace BuildScript.Text

structure Script where
  names : List String
  /-- The characters of this script. -/
  own : List String
  /-- The characters of no single script that are used in this one. -/
  shared : List String

def scripts : List Script :=
  [⟨["adlam", "adlm"], ["1E900+4B 1E950+9 1E95E+1"], ["61F 640 204F 2E41"]⟩,
    ⟨["ahom"], ["11700+1A 1171D+E 11730+16"], []⟩,
    ⟨["anatolianhieroglyphs", "hluw"], ["14400+246"], []⟩,
    ⟨["arabic", "arab"], ["600+4 606+5 60D+D 61C+2 620+1F 641+9 656+19 671+6B 6DE+21 750+2F",
      "870+1E 890+1 897+4A 8E3+1C FB50+72 FBD3+16A FD40+4F FD92+35 FDCF FDF0+F FE70+4 FE76+86",
      "10E60+1E 10EC2+2 10EFC+3 1EE00+3 1EE05+1A 1EE21+1 1EE24 1EE27 1EE29+9 1EE34+3 1EE39/1",
      "1EE42 1EE47/2 1EE4D+2 1EE51+1 1EE54 1EE57/4 1EE61+1 1EE64 1EE67+3 1EE6C+6 1EE74+3",
      "1EE79+3 1EE7E 1EE80+9 1EE8B+10 1EEA1+2 1EEA5+4 1EEAB+10 1EEF0+1"],
      ["60C 61B 61F 640 64B+A 670 204F 2E41 FD3E+1 102E0+1B"]⟩,
    ⟨["armenian", "armn"], ["531+25 559+31 58D+2 FB13+4"], ["308"]⟩,
    ⟨["avestan", "avst"], ["10B00+35 10B39+6"], ["B7 2E30+1"]⟩,
    ⟨["balinese", "bali"], ["1B00+4C 1B4E+31"], []⟩,
    ⟨["bamum", "bamu"], ["A6A0+57 16800+238"], []⟩,
    ⟨["bassavah", "bass"], ["16AD0+1D 16AF0+5"], []⟩,
    ⟨["batak", "batk"], ["1BC0+33 1BFC+3"], []⟩,
    ⟨["bengali", "beng"], ["980+3 985+7 98F+1 993+15 9AA+6 9B2 9B6+3 9BC+8 9C7+1 9CB+3 9D7",
      "9DC+1 9DF+4 9E6+18"],
      ["2BC 951+1 964+1 1CD0/1 1CD5+1 1CD8 1CE1 1CEA 1CED 1CF2 1CF5+2 A8F1"]⟩,
    ⟨["bhaiksuki", "bhks"], ["11C00+8 11C0A+2C 11C38+D 11C50+1C"], []⟩,
    ⟨["bopomofo", "bopo"], ["2EA+1 3105+2A 31A0+1F"],
      ["2C7 2C9+2 2D9 3001+2 3008+9 3013+C 302A+3 3030 3037 30FB FE45+1 FF61+4"]⟩,
    ⟨["brahmi", "brah"], ["11000+4D 11052+23 1107F"], []⟩,
    ⟨["braille", "brai"], ["2800+FF"], []⟩,
    ⟨["buginese", "bugi"], ["1A00+1B 1A1E+1"], ["A9CF"]⟩,
    ⟨["buhid", "buhd"], ["1740+13"], ["1735+1"]⟩,
    ⟨["canadianaboriginal", "cans"], ["1400+27F 18B0+45 11AB0+F"], []⟩,
    ⟨["carian", "cari"], ["102A0+30"], ["B7 205A 205D 2E31"]⟩,
    ⟨["caucasianalbanian", "aghb"], ["10530+33 1056F"], ["304 331 35E"]⟩,
    ⟨["chakma", "cakm"], ["11100+34 11136+11"], ["9E6+9 1040+9"]⟩,
    ⟨["cham"], ["AA00+36 AA40+D AA50+9 AA5C+3"], []⟩,
    ⟨["cherokee", "cher"], ["13A0+55 13F8+5 AB70+4F"], ["300+2 304 30B+1 323+1 330+1"]⟩,
    ⟨["chorasmian", "chrs"], ["10FB0+1B"], []⟩,
    ⟨["common", "zyyy"], ["0+40 5B+5 7B+2E AB+E BB+4 D7 F7 2B9+26 2E5+4 2EC+13 374 37E 385/1",
      "605 60C 61B 61F 640 6DD 8E2 964+1 E3F FD5+3 10FB 16EB+2 1735+1 1802+1 1805 1CD3 1CE1",
      "1CE9+3 1CEE+5 1CF5+2 1CFA 2000+B 200E+56 2066+A 2074+A 2080+E 20A0+20 2100+25 2127+2",
      "212C+5 2133+1A 214F+10 2189+2 2190+299 2440+A 2460+39F 2900+273 2B76+1F 2B97+68 2E00+5D",
      "2FF0+14 3006 3008+18 3030+7 303C+3 309B+1 30A0 30FB+1 3190+F 31C0+25 31EF 3220+3F",
      "327F+50 32FF 3358+A7 4DC0+3F A700+21 A788+2 A830+9 A92E A9CF AB5B AB6A+1 FD3E+1 FE10+9",
      "FE30+22 FE54+12 FE68+3 FEFF FF01+1F FF3B+5 FF5B+A FF70 FF9E+1 FFE0+6 FFE8+6 FFF9+4",
      "10100+2 10107+2C 10137+8 10190+C 101D0+2C 102E1+1A 1BCA0+3 1CC00+F9 1CD00+1B3 1CF50+73",
      "1D000+F5 1D100+26 1D129+3D 1D16A+10 1D183+1 1D18C+1D 1D1AE+3C 1D2C0+13 1D2E0+13 1D300+56",
      "1D360+18 1D400+54 1D456+46 1D49E+1 1D4A2 1D4A5+1 1D4A9+3 1D4AE+B 1D4BB 1D4BD+6 1D4C5+40",
      "1D507+3 1D50D+7 1D516+6 1D51E+1B 1D53B+3 1D540+4 1D546 1D54A+6 1D552+153 1D6A8+123",
      "1D7CE+31 1EC71+43 1ED01+3C 1F000+2B 1F030+63 1F0A0+E 1F0B1+E 1F0C1+E 1F0D1+24 1F100+AD",
      "1F1E6+19 1F201+1 1F210+2B 1F240+8 1F250+1 1F260+5 1F300+3D7 1F6DC+10 1F6F0+C 1F700+76",
      "1F77B+5E 1F7E0+B 1F7F0 1F800+B 1F810+37 1F850+9 1F860+27 1F890+1D 1F8B0+B 1F8C0+1",
      "1F900+153 1FA60+D 1FA70+C 1FA80+9 1FA8F+37 1FACE+E 1FADF+A 1FAF0+8 1FB00+92 1FB94+65",
      "E0001 E0020+5F"], []⟩,
    ⟨["coptic", "copt", "qaac"], ["3E2+D 2C80+73 2CF9+6"],
      ["B7 300 304+1 307 374+1 2E17 102E0+1B"]⟩,
    ⟨["cuneiform", "xsux"], ["12000+399 12400+6E 12470+4 12480+C3"], []⟩,
    ⟨["cypriot", "cprt"], ["10800+5 10808 1080A+2B 10837+1 1083C 1083F"],
      ["10100+2 10107+2C 10137+8"]⟩,
    ⟨["cyprominoan", "cpmn"], ["12F90+62"], ["10100+1"]⟩,
    ⟨["cyrillic", "cyrl"], ["400+84 487+A8 1C80+A 1D2B 1D78 2DE0+1F A640+5F FE2E+1 1E030+3D",
      "1E08F"],
      ["2BC 300+2 304/2 30B 311 485+1 1DF8 2E43"]⟩,
    ⟨["deseret", "dsrt"], ["10400+4F"], []⟩,
    ⟨["devanagari", "deva"], ["900+50 955+E 966+19 A8E0+1F 11B00+9"],
      ["2BC 951+1 964+1 1CD0+26 1CF8+1 20F0 A830+9"]⟩,
    ⟨["divesakuru", "diak"],
      ["11900+6 11909 1190C+7 11915+1 11918+1D 11937+1 1193B+B 11950+9"], []⟩,
    ⟨["dogra", "dogr"], ["11800+3B"], ["964+B A830+9"]⟩,
    ⟨["duployan", "dupl"], ["1BC00+6A 1BC70+C 1BC80+8 1BC90+9 1BC9C+3"],
      ["B7 307+1 30A 323+1 2E3C 1BCA0+3"]⟩,
    ⟨["egyptianhieroglyphs", "egyp"], ["13000+455 13460+F9A"], []⟩,
    ⟨["elbasan", "elba"], ["10500+27"], ["B7 305"]⟩,
    ⟨["elymaic", "elym"], ["10FE0+16"], []⟩,
    ⟨["ethiopic", "ethi"], ["1200+48 124A+3 1250+6 1258 125A+3 1260+28 128A+3 1290+20 12B2+3",
      "12B8+6 12C0 12C2+3 12C8+E 12D8+38 1312+3 1318+42 135D+1F 1380+19 2D80+16 2DA0+6 2DA8+6",
      "2DB0+6 2DB8+6 2DC0+6 2DC8+6 2DD0+6 2DD8+6 AB01+5 AB09+5 AB11+5 AB20+6 AB28+6 1E7E0+6",
      "1E7E8+3 1E7ED+1 1E7F0+E"],
      ["30E"]⟩,
    ⟨["garay", "gara"], ["10D40+25 10D69+1C 10D8E+1"], ["60C 61B 61F"]⟩,
    ⟨["georgian", "geor"], ["10A0+25 10C7 10CD 10D0+2A 10FC+3 1C90+2A 1CBD+2 2D00+25 2D27 2D2D"],
      ["B7 589 10FB 205A 2E31"]⟩,
    ⟨["glagolitic", "glag"], ["2C00+5F 1E000+6 1E008+10 1E01B+6 1E023+1 1E026+4"],
      ["B7 303/1 484 487 589 10FB 205A 2E43 A66F"]⟩,
    ⟨["gothic", "goth"], ["10330+1A"], ["B7 304+1 308 331"]⟩,
    ⟨["grantha", "gran"], ["11300+3 11305+7 1130F+1 11313+15 1132A+6 11332+1 11335+4 1133C+8",
      "11347+1 1134B+2 11350 11357 1135D+6 11366+6 11370+4"],
      ["951+1 964+1 BE6+D 1CD0 1CD2+1 1CF2+2 1CF8+1 20F0 1133B 11FD0+1 11FD3"]⟩,
    ⟨["greek", "grek"], ["370+3 375+2 37A+3 37F 384/1 388+2 38C 38E+13 3A3+3E 3F0+F 1D26+4",
      "1D5D+4 1D66+4 1DBF 1F00+15 1F18+5 1F20+25 1F48+5 1F50+7 1F59/2 1F5F+1E 1F80+34 1FB6+E",
      "1FC6+D 1FD6+5 1FDD+12 1FF2+2 1FF6+8 2126 AB65 10140+4E 101A0 1D200+45"],
      ["B7 300+1 304/2 313 342 345 374 1DC0+1 205D"]⟩,
    ⟨["gujarati", "gujr"], ["A81+2 A85+8 A8F+2 A93+15 AAA+6 AB2+1 AB5+4 ABC+9 AC7+2 ACB+2 AD0",
      "AE0+3 AE6+B AF9+6"],
      ["951+1 964+1 A830+9"]⟩,
    ⟨["gunjalagondi", "gong"], ["11D60+5 11D67+1 11D6A+24 11D90+1 11D93+5 11DA0+9"], ["B7 964+1"]⟩,
    ⟨["gurmukhi", "guru"], ["A01+2 A05+5 A0F+1 A13+15 A2A+6 A32+1 A35+1 A38+1 A3C A3E+4 A47+1",
      "A4B+2 A51 A59+3 A5E A66+10"],
      ["951+1 964+1 A830+9"]⟩,
    ⟨["gurungkhema", "gukh"], ["16100+39"], ["965"]⟩,
    ⟨["han", "hani"], ["2E80+19 2E9B+58 2F00+D5 3005/1 3021+8 3038+3 3400+19BF 4E00+51FF",
      "F900+16D FA70+69 16FE2+1 16FF0+1 20000+A6DF 2A700+1039 2B740+DD 2B820+1681 2CEB0+1D30",
      "2EBF0+26D 2F800+21D 30000+134A 31350+105F"],
      ["B7 2FF0+F 3001+2 3006 3008+9 3013+C 302A+3 3030 3037 303C+3 30FB 3190+F 31C0+25 31EF",
       "3220+27 3280+30 32C0+B 32FF 3358+18 337B+4 33E0+1E A700+7 FE45+1 FF61+4 1D360+11",
       "1F250+1"]⟩,
    ⟨["hangul", "hang"], ["1100+FF 302E+1 3131+5D 3200+1E 3260+1E A960+1C AC00+2BA3 D7B0+16",
      "D7CB+30 FFA0+1E FFC2+5 FFCA+5 FFD2+5 FFDA+2"],
      ["3001+2 3008+9 3013+C 3030 3037 30FB FE45+1 FF61+4"]⟩,
    ⟨["hanifirohingya", "rohg"], ["10D00+27 10D30+9"], ["60C 61B 61F 640 6D4"]⟩,
    ⟨["hanunoo", "hano"], ["1720+14"], ["1735+1"]⟩,
    ⟨["hatran", "hatr"], ["108E0+12 108F4+1 108FB+4"], []⟩,
    ⟨["hebrew", "hebr"], ["591+36 5D0+1A 5EF+5 FB1D+19 FB38+4 FB3E FB40+1 FB43+1 FB46+9"],
      ["307+1"]⟩,
    ⟨["hiragana", "hira"], ["3041+55 309D+2 1B001+11E 1B132 1B150+2 1F200"],
      ["3001+2 3008+9 3013+C 3030+5 3037 303C+1 3099+3 30A0 30FB+1 FE45+1 FF61+4 FF70 FF9E+1"]⟩,
    ⟨["imperialaramaic", "armi"], ["10840+15 10857+8"], []⟩,
    ⟨["inherited", "zinh", "qaai"], ["300+6F 485+1 64B+A 670 951+3 1AB0+1E 1CD0+2 1CD4+C 1CE2+6",
      "1CED 1CF4 1CF8+1 1DC0+3F 200C+1 20D0+20 302A+3 3099+1 FE00+F FE20+D 101FD 102E0 1133B",
      "1CF00+2D 1CF30+16 1D167+2 1D17B+7 1D185+6 1D1AA+3 E0100+EF"], []⟩,
    ⟨["inscriptionalpahlavi", "phli"], ["10B60+12 10B78+7"], []⟩,
    ⟨["inscriptionalparthian", "prti"], ["10B40+15 10B58+7"], []⟩,
    ⟨["javanese", "java"], ["A980+4D A9D0+9 A9DE+1"], ["A9CF"]⟩,
    ⟨["kaithi", "kthi"], ["11080+42 110CD"], ["966+9 2E31 A830+9"]⟩,
    ⟨["kannada", "knda"], ["C80+C C8E+2 C92+16 CAA+9 CB5+4 CBC+8 CC6+2 CCA+3 CD5+1 CDD+1 CE0+3",
      "CE6+9 CF1+2"],
      ["951+1 964+1 1CD0 1CD2+1 1CDA 1CF2/1 A830+5"]⟩,
    ⟨["katakana", "kana"], ["30A1+59 30FD+2 31F0+F 32D0+2E 3300+57 FF66+9 FF71+2C 1AFF0+3",
      "1AFF5+6 1AFFD+1 1B000 1B120+2 1B155 1B164+3"],
      ["305 323 3001+2 3008+9 3013+C 3030+5 3037 303C+1 3099+3 30A0 30FB+1 FE45+1 FF61+4 FF70",
       "FF9E+1"]⟩,
    ⟨["kawi"], ["11F00+10 11F12+28 11F3E+1C"], []⟩,
    ⟨["kayahli", "kali"], ["A900+2D A92F"], ["A92E"]⟩,
    ⟨["kharoshthi", "khar"],
      ["10A00+3 10A05+1 10A0C+7 10A15+2 10A19+1C 10A38+2 10A3F+9 10A50+8"], []⟩,
    ⟨["khitansmallscript", "kits"], ["16FE4 18B00+1D5 18CFF"], []⟩,
    ⟨["khmer", "khmr"], ["1780+5D 17E0+9 17F0+9 19E0+1F"], []⟩,
    ⟨["khojki", "khoj"], ["11200+11 11213+2E"], ["AE6+9 A830+9"]⟩,
    ⟨["khudawadi", "sind"], ["112B0+3A 112F0+9"], ["964+1 A830+9"]⟩,
    ⟨["kiratrai", "krai"], ["16D40+39"], []⟩,
    ⟨["lao", "laoo"], ["E81+1 E84 E86+4 E8C+17 EA5 EA7+16 EC0+4 EC6 EC8+6 ED0+9 EDC+3"], []⟩,
    ⟨["latin", "latn"], ["41+19 61+19 AA BA C0+16 D8+1E F8+1C0 2E0+4 1D00+25 1D2C+30 1D62+3",
      "1D6B+C 1D79+45 1E00+FF 2071 207F 2090+C 212A+1 2132 214E 2160+28 2C60+1F A722+65 A78B+42",
      "A7D0+1 A7D3 A7D5+7 A7F2+D AB30+2A AB5C+8 AB66+3 FB00+6 FF21+19 FF41+19 10780+5 10787+29",
      "107B2+8 1DF00+1E 1DF25+5"],
      ["B7 2BC 2C7 2C9+2 2CD 2D7/1 300+E 310+1 313 323+2 32D+1 330+1 358 35E 363+C 485+1 951+1",
       "10FB 1DF8 202F 20F0 2E17 A700+7 A92E"]⟩,
    ⟨["lepcha", "lepc"], ["1C00+37 1C3B+E 1C4D+2"], []⟩,
    ⟨["limbu", "limb"], ["1900+1E 1920+B 1930+B 1940 1944+B"], ["965"]⟩,
    ⟨["lineara", "lina"], ["10600+136 10740+15 10760+7"], ["10107+2C"]⟩,
    ⟨["linearb", "linb"], ["10000+B 1000D+19 10028+12 1003C+1 1003F+E 10050+D 10080+7A"],
      ["10100+2 10107+2C 10137+8"]⟩,
    ⟨["lisu"], ["A4D0+2F 11FB0"], ["2BC 2CD 300A+1"]⟩,
    ⟨["lycian", "lyci"], ["10280+1C"], ["205A"]⟩,
    ⟨["lydian", "lydi"], ["10920+19 1093F"], ["B7 2E31"]⟩,
    ⟨["mahajani", "mahj"], ["11150+26"], ["B7 964+B A830+9"]⟩,
    ⟨["makasar", "maka"], ["11EE0+18"], []⟩,
    ⟨["malayalam", "mlym"], ["D00+C D0E+2 D12+32 D46+2 D4A+5 D54+F D66+19"],
      ["951+1 964+1 1CDA 1CF2 A830+2"]⟩,
    ⟨["mandaic", "mand"], ["840+1B 85E"], ["640"]⟩,
    ⟨["manichaean", "mani"], ["10AC0+26 10AEB+B"], ["640"]⟩,
    ⟨["marchen", "marc"], ["11C70+1F 11C92+15 11CA9+D"], []⟩,
    ⟨["masaramgondi", "gonm"], ["11D00+6 11D08+1 11D0B+2B 11D3A 11D3C+1 11D3F+8 11D50+9"],
      ["964+1"]⟩,
    ⟨["medefaidrin", "medf"], ["16E40+5A"], []⟩,
    ⟨["meeteimayek", "mtei"], ["AAE0+16 ABC0+2D ABF0+9"], []⟩,
    ⟨["mendekikakui", "mend"], ["1E800+C4 1E8C7+F"], []⟩,
    ⟨["meroiticcursive", "merc"], ["109A0+17 109BC+13 109D2+2D"], []⟩,
    ⟨["meroitichieroglyphs", "mero"], ["10980+1F"], ["205D"]⟩,
    ⟨["miao", "plrd"], ["16F00+4A 16F4F+38 16F8F+10"], []⟩,
    ⟨["modi"], ["11600+44 11650+9"], ["A830+9"]⟩,
    ⟨["mongolian", "mong"], ["1800+1 1804 1806+13 1820+58 1880+2A 11660+C"],
      ["1802+1 1805 202F 3001+1 3008+3"]⟩,
    ⟨["mro", "mroo"], ["16A40+1E 16A60+9 16A6E+1"], []⟩,
    ⟨["multani", "mult"], ["11280+6 11288 1128A+3 1128F+E 1129F+A"], ["A66+9"]⟩,
    ⟨["myanmar", "mymr"], ["1000+9F A9E0+1E AA60+1F 116D0+13"], ["A92E"]⟩,
    ⟨["nabataean", "nbat"], ["10880+1E 108A7+8"], []⟩,
    ⟨["nagmundari", "nagm"], ["1E4D0+29"], []⟩,
    ⟨["nandinagari", "nand"], ["119A0+7 119AA+2D 119DA+A"],
      ["951 964+1 CE6+9 1CE9 1CF2 1CFA A830+5"]⟩,
    ⟨["newa"], ["11400+5B 1145D+4"], ["951+1 1CD5 1CD7+1 1CE2 1CE9/2"]⟩,
    ⟨["newtailue", "talu"], ["1980+2B 19B0+19 19D0+A 19DE+1"], []⟩,
    ⟨["nko", "nkoo"], ["7C0+3A 7FD+2"], ["60C 61B 61F FD3E+1"]⟩,
    ⟨["nushu", "nshu"], ["16FE1 1B170+18B"], []⟩,
    ⟨["nyiakengpuachuehmong", "hmnp"], ["1E100+2C 1E130+D 1E140+9 1E14E+1"], []⟩,
    ⟨["ogham", "ogam"], ["1680+1C"], []⟩,
    ⟨["olchiki", "olck"], ["1C50+2F"], []⟩,
    ⟨["oldhungarian", "hung"], ["10C80+32 10CC0+32 10CFA+5"], ["205A 205D 2E31 2E41"]⟩,
    ⟨["olditalic", "ital"], ["10300+23 1032D+2"], []⟩,
    ⟨["oldnortharabian", "narb"], ["10A80+1F"], []⟩,
    ⟨["oldpermic", "perm"], ["10350+2A"], ["B7 300 306+2 313 483"]⟩,
    ⟨["oldpersian", "xpeo"], ["103A0+23 103C8+D"], []⟩,
    ⟨["oldsogdian", "sogo"], ["10F00+27"], []⟩,
    ⟨["oldsoutharabian", "sarb"], ["10A60+1F"], []⟩,
    ⟨["oldturkic", "orkh"], ["10C00+48"], ["205A 2E30"]⟩,
    ⟨["olduyghur", "ougr"], ["10F70+19"], ["640 10AF2"]⟩,
    ⟨["olonal", "onao"], ["1E5D0+2A 1E5FF"], ["964+1"]⟩,
    ⟨["oriya", "orya"], ["B01+2 B05+7 B0F+1 B13+15 B2A+6 B32+1 B35+4 B3C+8 B47+1 B4B+2 B55+2",
      "B5C+1 B5F+4 B66+11"],
      ["951+1 964+1 1CDA 1CF2"]⟩,
    ⟨["osage", "osge"], ["104B0+23 104D8+23"], ["301 304 30B 358"]⟩,
    ⟨["osmanya", "osma"], ["10480+1D 104A0+9"], []⟩,
    ⟨["pahawhhmong", "hmng"], ["16B00+45 16B50+9 16B5B+6 16B63+14 16B7D+12"], []⟩,
    ⟨["palmyrene", "palm"], ["10860+1F"], []⟩,
    ⟨["paucinhau", "pauc"], ["11AC0+38"], []⟩,
    ⟨["phagspa", "phag"], ["A840+37"], ["1802+1 1805 202F 3002"]⟩,
    ⟨["phoenician", "phnx"], ["10900+1B 1091F"], []⟩,
    ⟨["psalterpahlavi", "phlp"], ["10B80+11 10B99+3 10BA9+6"], ["640"]⟩,
    ⟨["rejang", "rjng"], ["A930+23 A95F"], []⟩,
    ⟨["runic", "runr"], ["16A0+4A 16EE+A"], ["16EB+2"]⟩,
    ⟨["samaritan", "samr"], ["800+2D 830+E"], ["2E31"]⟩,
    ⟨["saurashtra", "saur"], ["A880+45 A8CE+B"], []⟩,
    ⟨["sharada", "shrd"], ["11180+5F"], ["951 1CD7/1 1CDC+1 1CE0 1CEA 1CED A830+5 A838"]⟩,
    ⟨["shavian", "shaw"], ["10450+2F"], ["B7"]⟩,
    ⟨["siddham", "sidd"], ["11580+35 115B8+25"], []⟩,
    ⟨["signwriting", "sgnw"], ["1D800+28B 1DA9B+4 1DAA1+E"], []⟩,
    ⟨["sinhala", "sinh"], ["D81+2 D85+11 D9A+17 DB3+8 DBD DC0+6 DCA DCF+5 DD6 DD8+7 DE6+9 DF2+2",
      "111E1+13"],
      ["964+1 1CF2"]⟩,
    ⟨["sogdian", "sogd"], ["10F30+29"], ["640"]⟩,
    ⟨["sorasompeng", "sora"], ["110D0+18 110F0+9"], []⟩,
    ⟨["soyombo", "soyo"], ["11A50+52"], []⟩,
    ⟨["sundanese", "sund"], ["1B80+3F 1CC0+7"], []⟩,
    ⟨["sunuwar", "sunu"], ["11BC0+21 11BF0+9"], ["300+1 303 30D 310 32D 331"]⟩,
    ⟨["sylotinagri", "sylo"], ["A800+2C"], ["964+1 9E6+9"]⟩,
    ⟨["syriac", "syrc"], ["700+D 70F+3B 74D+2 860+A"],
      ["303+1 307+1 30A 323+2 32D+1 330+1 60C 61B+1 61F 640 64B+A 670 1DF8/1"]⟩,
    ⟨["tagalog", "tglg"], ["1700+15 171F"], ["1735+1"]⟩,
    ⟨["tagbanwa", "tagb"], ["1760+C 176E+2 1772+1"], ["1735+1"]⟩,
    ⟨["taile", "tale"], ["1950+1D 1970+4"], ["300+1 307+1 30C 1040+9"]⟩,
    ⟨["taitham", "lana"], ["1A20+3E 1A60+1C 1A7F+A 1A90+9 1AA0+D"], []⟩,
    ⟨["taiviet", "tavt"], ["AA80+42 AADB+4"], []⟩,
    ⟨["takri", "takr"], ["11680+39 116C0+9"], ["964+1 A830+9"]⟩,
    ⟨["tamil", "taml"], ["B82+1 B85+5 B8E+2 B92+3 B99+1 B9C B9E+1 BA3+1 BA8+2 BAE+B BBE+4 BC6+2",
      "BCA+3 BD0 BD7 BE6+14 11FC0+31 11FFF"],
      ["951+1 964+1 1CDA A8F3 11301/1 1133B+1"]⟩,
    ⟨["tangsa", "tnsa"], ["16A70+4E 16AC0+9"], []⟩,
    ⟨["tangut", "tang"], ["16FE0 17000+17F7 18800+2FF 18D00+8"], ["2FF0+F 31EF"]⟩,
    ⟨["telugu", "telu"], ["C00+C C0E+2 C12+16 C2A+F C3C+8 C46+2 C4A+3 C55+1 C58+2 C5D C60+3",
      "C66+9 C77+8"],
      ["951+1 964+1 1CD5+1 1CD8/1 1CF2"]⟩,
    ⟨["thaana", "thaa"], ["780+31"], ["60C 61B+1 61F 660+9 FDF2 FDFD"]⟩,
    ⟨["thai"], ["E01+39 E40+1B"], ["2BC 2D7 303 331"]⟩,
    ⟨["tibetan", "tibt"], ["F00+47 F49+23 F71+26 F99+23 FBE+E FCE+6 FD9+1"], ["3008+3"]⟩,
    ⟨["tifinagh", "tfng"], ["2D30+37 2D6F+1 2D7F"], ["302/1 306+3 323"]⟩,
    ⟨["tirhuta", "tirh"], ["11480+47 114D0+9"], ["951+1 964+1 1CD5 1CE2 1CF2 A830+9"]⟩,
    ⟨["todhri", "todr"], ["105C0+33"], ["301 304 307 311/1 35E"]⟩,
    ⟨["toto"], ["1E290+1E"], ["2BC"]⟩,
    ⟨["tulutigalari", "tutg"], ["11380+9 1138B 1138E 11390+25 113B7+9 113C2 113C5 113C7+3",
      "113CC+9 113D7+1 113E1+1"],
      ["CE6+9 1CF2/1 A830+5 A8F1"]⟩,
    ⟨["ugaritic", "ugar"], ["10380+1D 1039F"], []⟩,
    ⟨["vai", "vaii"], ["A500+12B"], []⟩,
    ⟨["vithkuqi", "vith"], ["10570+A 1057C+E 1058C+6 10594+1 10597+A 105A3+E 105B3+6 105BB+1"], []⟩,
    ⟨["wancho", "wcho"], ["1E2C0+39 1E2FF"], []⟩,
    ⟨["warangciti", "wara"], ["118A0+52 118FF"], []⟩,
    ⟨["yezidi", "yezi"], ["10E80+29 10EAB+2 10EB0+1"], ["60C 61B 61F 660+9"]⟩,
    ⟨["yi", "yiii"], ["A000+48C A490+36"], ["3001+1 3008+9 3014+7 30FB FF61+4"]⟩,
    ⟨["zanabazarsquare", "zanb"], ["11A00+47"], []⟩]

end BuildScript.Text
