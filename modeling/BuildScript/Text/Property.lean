/-!
# Listed properties

The characters of those Unicode properties that do not follow from the general categories, as rows
of characters in the way of `Script.own`, under the names of the properties.
-/

namespace BuildScript.Text

def properties : List (List String × List String) :=
  [(["asciihexdigit", "ahex"], ["30+9 41+5 61+5"]),
    (["bidicontrol", "bidic"], ["61C 200E+1 202A+4 2066+3"]),
    (["bidimirrored", "bidim"], ["28+1 3C/1 5B/1 7B/1 AB BB F3A+3 169B+1 2039+1 2045+1 207D+1",
      "208D+1 2140 2201+3 2208+5 2211 2215+1 221A+3 221F+3 2224/1 222B+8 2239 223B+11 2252+3",
      "225F+1 2262 2264+7 226D+1F 228F+3 2298 22A2+1 22A6+12 22BE+1 22C9+4 22D0+1 22D6+17",
      "22F0+F 2308+3 2320+1 2329+1 2768+D 27C0 27C3+3 27C8+1 27CB+2 27D3+3 27DC+2 27E2+D",
      "2983+15 299B+5 29A2+D 29B8 29C0+5 29C9 29CE+4 29D4+1 29D8+4 29E1 29E3+2 29E8+1 29F4+5",
      "29FC+1 2A0A+12 2A1E+3 2A24/1 2A29 2A2B+3 2A34+1 2A3C+2 2A57+1 2A64+1 2A6A+3 2A6F+1",
      "2A73+1 2A79+2A 2AA6+7 2AAF+27 2ADC/1 2AE2+4 2AEC+2 2AF3 2AF7+4 2AFD 2BFE 2E02+3 2E09+1",
      "2E0C+1 2E1C+1 2E20+9 2E55+7 3008+9 3014+7 FE59+5 FE64+1 FF08+1 FF1C/1 FF3B/1 FF5B/1",
      "FF5F+1 FF62+1 1D6DB 1D715 1D74F 1D789 1D7C3"]),
    (["changeswhenlowercased", "cwl"], ["41+19 C0+16 D8+6 100/1B 139/7 14A/16 178+1 17B/1 181+1",
      "184 186+1 189+2 18E+3 193+1 196+2 19C+1 19F+1 1A2/1 1A6+1 1A9 1AC 1AE+1 1B1+2 1B5 1B7+1",
      "1BC 1C4+1 1C7+1 1CA+1 1CD/7 1DE/8 1F1+1 1F4 1F6+2 1FA/1C 23A+1 23D+1 241 243+3 248/3",
      "370/1 376 37F 386 388+2 38C 38E+1 391+10 3A3+8 3CF 3D8/B 3F4 3F7 3F9+1 3FD+32 460/10",
      "48A/1A 4C0+1 4C3/5 4D0/2F 531+25 10A0+25 10C7 10CD 13A0+55 1C89 1C90+2A 1CBD+2 1E00/4A",
      "1E9E/30 1F08+7 1F18+5 1F28+7 1F38+7 1F48+5 1F59/3 1F68+7 1F88+7 1F98+7 1FA8+7 1FB8+4",
      "1FC8+4 1FD8+3 1FE8+4 1FF8+4 2126 212A+1 2132 2160+F 2183 24B6+19 2C00+2F 2C60 2C62+2",
      "2C67/2 2C6D+3 2C72 2C75 2C7E+2 2C82/30 2CEB/1 2CF2 A640/16 A680/D A722/6 A732/1E A779/1",
      "A77D+1 A780/3 A78B/1 A790/1 A796/9 A7AA+4 A7B0+4 A7B6/6 A7C4+3 A7C9 A7CB+1 A7D0 A7D6/3",
      "A7F5 FF21+19 10400+27 104B0+23 10570+A 1057C+E 1058C+6 10594+1 10C80+32 10D50+15",
      "118A0+1F 16E40+1F 1E900+21"]),
    (["changeswhenuppercased", "cwu"], ["61+19 B5 DF+17 F8+7 101/1B 13A/6 148+1 14B/16 17A/1",
      "17E+2 183/1 188 18C 192 195 199+2 19E 1A1/2 1A8 1AD 1B0 1B4/1 1B9 1BD/1 1C5+1 1C8+1",
      "1CB+1 1CE/6 1DC+1 1DF/7 1EF+1 1F2+1 1F5 1F9/13 223/8 23C 23F+1 242 247/3 24F+5 256+1 259",
      "25B+1 260+1 263+3 268+4 26F 271+1 275 27D 280 282+1 287+5 292 29D+1 345 371/1 377 37B+2",
      "390 3AC+22 3D0+1 3D5+2 3D9/A 3EF+4 3F5 3F8 3FB 430+2F 461/10 48B/1A 4C2/5 4CE+1 4D1/2F",
      "561+26 10D0+2A 10FD+2 13F8+5 1C80+8 1C8A 1D79 1D7D 1D8E 1E01/49 1E95+6 1EA1/2E 1EFF+8",
      "1F10+5 1F20+7 1F30+7 1F40+5 1F50+7 1F60+7 1F70+D 1F80+34 1FB6+1 1FBC/1 1FC2+2 1FC6+1",
      "1FCC 1FD0+3 1FD6+1 1FE0+7 1FF2+2 1FF6+1 1FFC 214E 2170+F 2184 24D0+19 2C30+2F 2C61",
      "2C65+1 2C68/2 2C73 2C76 2C81/31 2CEC/1 2CF3 2D00+25 2D27 2D2D A641/16 A681/D A723/6",
      "A733/1E A77A/1 A77F/4 A78C A791 A793+1 A797/9 A7B5/7 A7C8/1 A7CD A7D1 A7D7/2 A7F6 AB53",
      "AB70+4F FB00+6 FB13+4 FF41+19 10428+27 104D8+23 10597+A 105A3+E 105B3+6 105BB+1 10CC0+32",
      "10D70+15 118C0+1F 16E60+1F 1E922+21"]),
    (["defaultignorablecodepoint", "di"], ["AD 34F 61C 115F+1 17B4+1 180B+4 200B+4 202A+4",
      "2060+F 3164 FE00+F FEFF FFA0 FFF0+8 1BCA0+3 1D173+7 E0000+FFF"]),
    (["deprecated", "dep"], ["149 673 F77/1 17A3+1 206A+5 2329+1 E0001"]),
    (["diacritic", "dia"], ["5E/1 A8 AF B4 B7+1 2B0+9E 350+7 35D+5 374+1 37A 384+1 483+4 559",
      "591+2C 5BF 5C1+1 5C4+1 5C7 64B+7 657+1 6DF+1 6E5+1 6EA+2 730+1A 7A6+A 7EB+A 818+1 898+7",
      "8C9+9 8E3+1B 93C 94D 951+3 971 9BC 9CD A3C A4D ABC ACD AFD+2 B3C B4D B55 BCD C3C C4D CBC",
      "CCD D3B+1 D4D DCA E3A E47+5 E4E EBA EC8+4 F18+1 F35/2 F3E+1 F82+2 F86+1 FC6 1037 1039+1",
      "1063+1 1069+4 1087+6 108F 109A+1 135D+2 1714+1 1734 17C9+A 17DD 1939+2 1A60 1A75+7 1A7F",
      "1AB0+E 1AC1+A 1B34 1B44 1B6B+8 1BAA+1 1BE6 1BF2+1 1C36+1 1C78+5 1CD0+18 1CED 1CF4 1CF7+2",
      "1D2C+3E 1D9B+23 1DC4+B 1DF5+A 1FBD 1FBF+2 1FCD+2 1FDD+2 1FED+2 1FFD+1 2CEF+2 2E2F 302A+5",
      "3099+3 30FC A66F A67C+1 A67F A69C+1 A6F0+1 A700+21 A788+2 A7F8+1 A806 A82C A8C4 A8E0+11",
      "A92B+3 A953 A9B3 A9C0 A9E5 AA7B+2 AABF+3 AAF6 AB5B+4 AB69+2 ABEC+1 FB1E FE20+F FF3E/1",
      "FF70 FF9E+1 FFE3 102E0 10780+5 10787+29 107B2+8 10A38+2 10A3F 10AE5+1 10D22+5 10D4E",
      "10D69+4 10EFD+2 10F46+A 10F82+3 11046 11070 110B9+1 11133+1 11173 111C0 111CA+2 11235+1",
      "112E9+1 1133B+1 1134D 11366+6 11370+4 113CE+2 113D2+1 113E1+1 11442 11446 114C2+1",
      "115BF+1 1163F 116B6+1 1172B 11839+1 1193D+1 11943 119E0 11A34 11A47 11A99 11C3F 11D42",
      "11D44+1 11D97 11F41+1 11F5A 13447+E 1612F 16AF0+4 16B30+6 16D6B+1 16F8F+10 16FF0+1",
      "1AFF0+3 1AFF5+6 1AFFD+1 1CF00+2D 1CF30+16 1D167+2 1D16D+5 1D17B+7 1D185+6 1D1AA+3",
      "1E030+3D 1E130+6 1E2AE 1E2EC+3 1E5EE+1 1E8D0+6 1E944+2 1E948+2"]),
    (["emoji"], ["23 2A 30+9 A9 AE 203C 2049 2122 2139 2194+5 21A9+1 231A+1 2328 23CF 23E9+A",
      "23F8+2 24C2 25AA+1 25B6 25C0 25FB+3 2600+4 260E 2611 2614+1 2618 261D 2620 2622+1 2626",
      "262A 262E+1 2638+2 2640/1 2648+B 265F+1 2663 2665+1 2668 267B 267E+1 2692+5 2699 269B+1",
      "26A0+1 26A7 26AA+1 26B0+1 26BD+1 26C4+1 26C8 26CE+1 26D1 26D3+1 26E9+1 26F0+5 26F7+3",
      "26FD 2702 2705 2708+5 270F 2712/2 271D 2721 2728 2733+1 2744 2747 274C/1 2753+2 2757",
      "2763+1 2795+2 27A1 27B0 27BF 2934+1 2B05+2 2B1B+1 2B50 2B55 3030 303D 3297/1 1F004 1F0CF",
      "1F170+1 1F17E+1 1F18E 1F191+9 1F1E6+19 1F201+1 1F21A 1F22F 1F232+8 1F250+1 1F300+21",
      "1F324+6F 1F396+1 1F399+2 1F39E+52 1F3F3+2 1F3F7+106 1F4FF+3E 1F549+5 1F550+17 1F56F+1",
      "1F573+7 1F587 1F58A+3 1F590 1F595+1 1F5A4+1 1F5A8 1F5B1+1 1F5BC 1F5C2+2 1F5D1+2 1F5DC+2",
      "1F5E1/1 1F5E8 1F5EF 1F5F3 1F5FA+55 1F680+45 1F6CB+7 1F6D5+2 1F6DC+9 1F6E9 1F6EB+1 1F6F0",
      "1F6F3+9 1F7E0+B 1F7F0 1F90C+2E 1F93C+9 1F947+B8 1FA70+C 1FA80+9 1FA8F+37 1FACE+E 1FADF+A",
      "1FAF0+8"]),
    (["emojicomponent", "ecomp"], ["23 2A 30+9 200D 20E3 FE0F 1F1E6+19 1F3FB+4 1F9B0+3 E0020+5F"]),
    (["emojimodifier", "emod"], ["1F3FB+4"]),
    (["emojimodifierbase", "ebase"], ["261D 26F9 270A+3 1F385 1F3C2+2 1F3C7 1F3CA+2 1F442+1",
      "1F446+A 1F466+12 1F47C 1F481+2 1F485+2 1F48F/1 1F4AA 1F574+1 1F57A 1F590 1F595+1 1F645+2",
      "1F64B+4 1F6A3 1F6B4+2 1F6C0 1F6CC 1F90C 1F90F 1F918+7 1F926 1F930+9 1F93C+2 1F977",
      "1F9B5+1 1F9B8+1 1F9BB 1F9CD+2 1F9D1+C 1FAC3+2 1FAF0+8"]),
    (["emojipresentation", "epres"], ["231A+1 23E9+3 23F0 23F3 25FD+1 2614+1 2648+B 267F 2693",
      "26A1 26AA+1 26BD+1 26C4+1 26CE 26D4 26EA 26F2+1 26F5 26FA 26FD 2705 270A+1 2728 274C/1",
      "2753+2 2757 2795+2 27B0 27BF 2B1B+1 2B50 2B55 1F004 1F0CF 1F18E 1F191+9 1F1E6+19 1F201",
      "1F21A 1F22F 1F232+4 1F238+2 1F250+1 1F300+20 1F32D+8 1F337+45 1F37E+15 1F3A0+2A 1F3CF+4",
      "1F3E0+10 1F3F4 1F3F8+46 1F440 1F442+BA 1F4FF+3E 1F54B+3 1F550+17 1F57A 1F595+1 1F5A4",
      "1F5FB+54 1F680+45 1F6CC 1F6D0+2 1F6D5+2 1F6DC+3 1F6EB+1 1F6F4+8 1F7E0+B 1F7F0 1F90C+2E",
      "1F93C+9 1F947+B8 1FA70+C 1FA80+9 1FA8F+37 1FACE+E 1FADF+A 1FAF0+8"]),
    (["extendedpictographic", "extpict"], ["A9 AE 203C 2049 2122 2139 2194+5 21A9+1 231A+1 2328",
      "2388 23CF 23E9+A 23F8+2 24C2 25AA+1 25B6 25C0 25FB+3 2600+5 2607+B 2614+71 2690+75",
      "2708+A 2714/1 271D 2721 2728 2733+1 2744 2747 274C/1 2753+2 2757 2763+4 2795+2 27A1 27B0",
      "27BF 2934+1 2B05+2 2B1B+1 2B50 2B55 3030 303D 3297/1 1F000+FF 1F10D+2 1F12F 1F16C+5",
      "1F17E+1 1F18E 1F191+9 1F1AD+38 1F201+E 1F21A 1F22F 1F232+8 1F23C+3 1F249+1B1 1F400+13D",
      "1F546+109 1F680+7F 1F774+B 1F7D5+2A 1F80C+3 1F848+7 1F85A+5 1F888+7 1F8AE+51 1F90C+2E",
      "1F93C+9 1F947+1B8 1FC00+3FD"]),
    (["extender", "ext"], ["B7 2D0+1 640 7FA A71 AFB B55 E46 EC6 180A 1843 1AA7 1C36 1C7B 3005",
      "3031+4 309D+1 30FC+2 A015 A60C A9CF A9E6 AA70 AADD AAF3+1 FF70 10781+1 10D4E 10D6A 10D6F",
      "11237 1135D 113D2+1 115C6+2 11A98 16B42+1 16FE0+1 16FE3 1E13C+1 1E5EF 1E944+2"]),
    (["graphemelink", "grlink"], ["94D 9CD A4D ACD B4D BCD C4D CCD D3B+1 D4D DCA E3A EBA F84",
      "1039+1 1714+1 1734 17D2 1A60 1B44 1BAA+1 1BF2+1 2D7F A806 A82C A8C4 A953 A9C0 AAF6 ABED",
      "10A3F 11046 11070 1107F 110B9 11133+1 111C0 11235 112EA 1134D 113CE+2 11442 114C2 115BF",
      "1163F 116B6 1172B 11839 1193D+1 119E0 11A34 11A47 11A99 11C3F 11D44+1 11D97 11F41+1",
      "1612F"]),
    (["hexdigit", "hex"], ["30+9 41+5 61+5 FF10+9 FF21+5 FF41+5"]),
    (["hyphen"], ["2D AD 58A 1806 2010+1 2E17 30FB FE63 FF0D FF65"]),
    (["idsbinaryoperator", "idsb"], ["2FF0+1 2FF4+9 31EF"]),
    (["idstrinaryoperator", "idst"], ["2FF2+1"]),
    (["idsunaryoperator", "idsu"], ["2FFE+1"]),
    (["idcompatmathcontinue"], ["B2+1 B9 2070 2074+A 2080+E 2202 2207 221E 1D6C1 1D6DB 1D6FB",
      "1D715 1D735 1D74F 1D76F 1D789 1D7A9 1D7C3"]),
    (["idcompatmathstart"], ["2202 2207 221E 1D6C1 1D6DB 1D6FB 1D715 1D735 1D74F 1D76F 1D789",
      "1D7A9 1D7C3"]),
    (["ideographic", "ideo"], ["3006+1 3021+8 3038+2 3400+19BF 4E00+51FF F900+16D FA70+69 16FE4",
      "17000+17F7 18800+4D5 18CFF+9 1B170+18B 20000+A6DF 2A700+1039 2B740+DD 2B820+1681",
      "2CEB0+1D30 2EBF0+26D 2F800+21D 30000+134A 31350+105F"]),
    (["joincontrol", "joinc"], ["200C+1"]),
    (["logicalorderexception", "loe"], ["E40+4 EC0+4 19B5+2 19BA AAB5+1 AAB9 AABB+1"]),
    (["modifiercombiningmark", "mcm"], ["654+1 658 6DC 6E3 6E7+1 8CA+1 8CD+2 8D3 8F3"]),
    (["noncharactercodepoint", "nchar"], ["FDD0+1F FFFE+1 1FFFE+1 2FFFE+1 3FFFE+1 4FFFE+1",
      "5FFFE+1 6FFFE+1 7FFFE+1 8FFFE+1 9FFFE+1 AFFFE+1 BFFFE+1 CFFFE+1 DFFFE+1 EFFFE+1 FFFFE+1",
      "10FFFE+1"]),
    (["otherdefaultignorablecodepoint", "odi"], ["34F 115F+1 17B4+1 2065 3164 FFA0 FFF0+8 E0000",
      "E0002+1D E0080+7F E01F0+E0F"]),
    (["othergraphemeextend", "ogrext"], ["9BE 9D7 B3E B57 BBE BD7 CC0/1 CC7+1 CCA+1 CD5+1 D3E",
      "D57 DCF DDF 1715 1734 1B35 1B3B/1 1B43+1 1BAA 1BF2+1 200C 302E+1 A953 A9C0 FF9E+1 111C0",
      "11235 1133E 1134D 11357 113B8 113C2 113C5 113C7+2 113CF 114B0 114BD 115AF 116B6 11930",
      "1193D 11F41 16FF0+1 1D165+1 1D16D+5 E0020+5F"]),
    (["otheridcontinue", "oidc"], ["B7 387 1369+8 19DA 200C+1 30FB FF65"]),
    (["otheridstart", "oids"], ["1885+1 2118 212E 309B+1"]),
    (["otherlowercase", "olower"], ["AA BA 2B0+8 2C0+1 2E0+4 345 37A 10FC 1D2C+3E 1D78 1D9B+24",
      "2071 207F 2090+C 2170+F 24D0+19 2C7C+1 A69C+1 A770 A7F2+2 A7F8+1 AB5C+3 AB69 10780",
      "10783+2 10787+29 107B2+8 1E030+3D"]),
    (["othermath", "omath"], ["5E 3D0+2 3D5 3F0+1 3F4+1 2016 2032+2 2040 2061+3 207D+1 208D+1",
      "20D0+C 20E1 20E5+1 20EB+4 2102 2107 210A+9 2115 2119+4 2124 2128+1 212C+1 212F+2 2133+5",
      "213C+3 2145+4 2195+4 219C+3 21A1+1 21A4+1 21A7 21A9+4 21B0+1 21B6+1 21BC+11 21D0+1 21D3",
      "21D5+6 21DD 21E4+1 2308+3 23B4+1 23B7 23D0 23E2 25A0+1 25AE+8 25BC+4 25C6+1 25CA+1",
      "25CF+4 25E2/1 25E7+5 2605+1 2640/1 2660+3 266D+1 27C5+1 27E6+9 2983+15 29D8+3 29FC+1",
      "FE61/1 FE68 FF3C/1 1D400+54 1D456+46 1D49E+1 1D4A2 1D4A5+1 1D4A9+3 1D4AE+B 1D4BB 1D4BD+6",
      "1D4C5+40 1D507+3 1D50D+7 1D516+6 1D51E+1B 1D53B+3 1D540+4 1D546 1D54A+6 1D552+153",
      "1D6A8+18 1D6C2+18 1D6DC+1E 1D6FC+18 1D716+1E 1D736+18 1D750+1E 1D770+18 1D78A+1E",
      "1D7AA+18 1D7C4+7 1D7CE+31 1EE00+3 1EE05+1A 1EE21+1 1EE24 1EE27 1EE29+9 1EE34+3 1EE39/1",
      "1EE42 1EE47/2 1EE4D+2 1EE51+1 1EE54 1EE57/4 1EE61+1 1EE64 1EE67+3 1EE6C+6 1EE74+3",
      "1EE79+3 1EE7E 1EE80+9 1EE8B+10 1EEA1+2 1EEA5+4 1EEAB+10"]),
    (["otheruppercase", "oupper"], ["2160+F 24B6+19 1F130+19 1F150+19 1F170+19"]),
    (["patternsyntax", "patsyn"], ["21+E 3A+6 5B+3 60 7B+3 A1+6 A9 AB+1 AE B0+1 B6 BB BF D7 F7",
      "2010+17 2030+E 2041+12 2055+9 2190+2CF 2500+275 2794+401 2B97+68 2E00+7F 3001+2 3008+18",
      "3030 FD3E+1 FE45+1"]),
    (["patternwhitespace", "patws"], ["9+4 20 85 200E+1 2028+1"]),
    (["prependedconcatenationmark", "pcm"], ["600+5 6DD 70F 890+1 8E2 110BD 110CD"]),
    (["quotationmark", "qmark"], ["22 27 AB BB 2018+7 2039+1 2E42 300C+3 301D+2 FE41+3 FF02",
      "FF07 FF62+1"]),
    (["radical"], ["2E80+19 2E9B+58 2F00+D5"]),
    (["regionalindicator", "ri"], ["1F1E6+19"]),
    (["sentenceterminal", "sterm"], ["21 2E 3F 589 61D+2 6D4 700+2 7F9 837/1 83D+1 964+1 104A+1",
      "1362 1367+1 166E 1735+1 17D4+1 1803 1809 1944+1 1AA8+3 1B4E+1 1B5A+1 1B5E+1 1B7D+2",
      "1C3B+1 1C7E+1 2024 203C+1 2047+2 2CF9+2 2E2E 2E3C 2E53+1 3002 A4FF A60E+1 A6F3 A6F7",
      "A876+1 A8CE+1 A92F A9C8+1 AA5D+2 AAF0+1 ABEB FE12 FE15+1 FE52 FE56+1 FF01 FF0E FF1F FF61",
      "10A56+1 10F55+4 10F86+3 11047+1 110BE+3 11141+2 111C5+1 111CD 111DE+1 11238+1 1123B+1",
      "112A9 113D4+1 1144B+1 115C2+1 115C9+E 11641+1 1173C+2 11944/1 11A42+1 11A9B+1 11C41+1",
      "11EF7+1 11F43+1 16A6E+1 16AF5 16B37+1 16B44 16D6E+1 16E98 1BC9F 1DA88"]),
    (["softdotted", "sd"], ["69+1 12F 249 268 29D 2B2 3F3 456/1 1D62 1D96 1DA4 1DA8 1E2D 1ECB",
      "2071 2148+1 2C7C 1D422+1 1D456+1 1D48A+1 1D4BE+1 1D4F2+1 1D526+1 1D55A+1 1D58E+1 1D5C2+1",
      "1D5F6+1 1D62A+1 1D65E+1 1D692+1 1DF1A 1E04C+1 1E068"]),
    (["terminalpunctuation", "term"], ["21 2C/1 3A+1 3F 37E 387 589 5C3 60C 61B 61D+2 6D4 700+A",
      "70C 7F8+1 830+5 837+7 85E 964+1 E5A+1 F08 F0D+5 104A+1 1361+7 166E 16EB+2 1735+1 17D4+2",
      "17DA 1802+3 1808+1 1944+1 1AA8+3 1B4E+1 1B5A+1 1B5D+2 1B7D+2 1C3B+4 1C7E+1 2024 203C+1",
      "2047+2 2CF9+2 2E2E 2E3C 2E41 2E4C 2E4E+1 2E53+1 3001+1 A4FE+1 A60D+2 A6F3+4 A876+1",
      "A8CE+1 A92F A9C7+2 AA5D+2 AADF AAF0+1 ABEB FE12 FE15+1 FE50+2 FE54+3 FF01 FF0C/1 FF1A+1",
      "FF1F FF61 FF64 1039F 103D0 10857 1091F 10A56+1 10AF0+5 10B3A+5 10B99+3 10F55+4 10F86+3",
      "11047+6 110BE+3 11141+2 111C5+1 111CD 111DE+1 11238+4 112A9 113D4+1 1144B+2 1145A+1",
      "115C2+3 115C9+E 11641+1 1173C+2 11944/1 11A42+1 11A9B+1 11AA1+1 11C41+2 11C71 11EF7+1",
      "11F43+1 12470+4 16A6E+1 16AF5 16B37+2 16B44 16D6E+1 16E97+1 1BC9F 1DA87+3"]),
    (["unifiedideograph", "uideo"], ["3400+19BF 4E00+51FF FA0E+1 FA11 FA13+1 FA1F/1 FA23+1",
      "FA27+2 20000+A6DF 2A700+1039 2B740+DD 2B820+1681 2CEB0+1D30 2EBF0+26D 30000+134A",
      "31350+105F"]),
    (["variationselector", "vs"], ["180B+2 180F FE00+F E0100+EF"])]

end BuildScript.Text
