import Netlist.Text.Table

/-!
# Canonical decompositions

Every code point with a canonical decomposition, with its full decomposition, in
increasing order, block by block.  Hangul syllables are not listed: theirs is
computed.

An entry such as `C0=41+300` says what a code point is decomposed into.  An entry
without a code point is for the one after that of the entry before, and a part may
leave out the leading digits that it shares with the same part of that entry.
-/

namespace Netlist.Text

/-- Adds an entry to the decompositions before it, all with their digits. -/
def pushDecomposition (table : Array (Nat × List (List Char))) (entry : List Char) :
    Array (Nat × List (List Char)) :=
  let sides := entry.splitOn '='
  let before := table.back?.getD (0, [])
  let code := if sides.length == 2 then codePoint (sides.headD []) else before.1 + 1
  let parts := (sides.getLastD []).splitOn '+'
  table.push (code, parts.mapIdx fun i digits => fullDigits (before.2.getD i []) digits)

def readDecompositions (text : String) : Array (Nat × List Nat) :=
  ((tableEntries text).foldl pushDecomposition #[]).map fun e => (e.1, e.2.map codePoint)

example : readDecompositions "C0=41+300 +1 D1=E+3" =
    #[(0xC0, [0x41, 0x300]), (0xC1, [0x41, 0x301]), (0xD1, [0x4E, 0x303])] := by
  decide +kernel

def scriptDecompositions : Array (Nat × List Nat) :=
  readDecompositions "C0=41+300 +1 +2 +3 +8 +A C7=3+27 5+00 +1 +2 +8 9+0 +1 +2 +8 D1=E+3 F+0 +1 +2
    +3 +8 D9=55+0 +1 +2 +8 9+1 E0=61+0 +1 +2 +3 +8 +A E7=3+27 5+00 +1 +2 +8 9+0 +1 +2 +8 F1=E+3 F+0
    +1 +2 +3 +8 F9=75+0 +1 +2 +8 9+1 FF=+8 41+4 61+ 41+6 61+ 41+28 61+ 43+01 63+ 43+2 63+ 43+7 63+
    43+C 63+ 44+ 64+ 112=45+4 65+ 45+6 65+ 45+7 65+ 45+28 65+ 45+0C 65+ 47+2 67+ 47+6 67+ 47+7 67+
    47+27 67+ 48+02 68+ 128=49+3 69+ 49+4 69+ 49+6 69+ 49+28 69+ 49+07 134=A+2 6A+ 4B+27 6B+
    139=4C+01 6C+ 4C+27 6C+ 4C+0C 6C+ 143=4E+1 6E+ 4E+27 6E+ 4E+0C 6E+ 14C=4F+4 6F+ 4F+6 6F+ 4F+B
    6F+ 154=52+1 72+ 52+27 72+ 52+0C 72+ 53+1 73+ 53+2 73+ 53+27 73+ 53+0C 73+ 54+27 74+ 54+0C 74+
    168=55+3 75+ 55+4 75+ 55+6 75+ 55+A 75+ 55+B 75+ 55+28 75+ 57+02 77+ 59+ 79+ 59+8 A+1 7A+ 5A+7
    7A+ 5A+C 7A+ 1A0=4F+1B 6F+ 1AF=55+ 75+ 1CD=41+0C 61+ 49+ 69+ 4F+ 6F+ 55+ 75+ 55+8+304 75++ 55++1
    75++ 55++C 75++ 55++0 75++ 1DE=41++4 61++ 41+7+ 61++ C6+4 E6+ 1E6=47+C 67+ 4B+ 6B+ 4F+28 6F+
    4F++304 6F++ 1B7+0C 292+ 06A+ 1F4=47+1 67+ 1F8=4E+0 6E+ 41+A+301 61++ C6+1 E6+ D8+ F8+ 41+F 61+
    41+11 61+ 45+0F 65+ 45+11 65+ 49+0F 69+ 49+11 69+ 4F+0F 6F+ 4F+11 6F+ 52+0F 72+ 52+11 72+ 55+0F
    75+ 55+11 75+ 53+26 73+ 54+ 74+ 21E=48+0C 68+ 226=41+7 61+ 45+27 65+ 4F+08+304 6F++ 4F+3+ 6F++
    4F+7 6F+ 4F++304 6F++ 59+4 79+ 340=300 1 343=13 08+301 374=2B9 37E=03B 385=A8+301 391+ 0B7
    395+301 7+ 9+ 38C=F+ 38E=A5+ 9+ B9+8+301 3AA=99+ A5+ B1+1 5+ 7+ 9+ C5+8+301 3CA=B9+ C5+ BF+1 C5+
    9+ 3D3=D2+ +8 400=415+0 +8 403=3+1 407=06+8 40C=1A+1 8+0 23+6 419=18+ 439=38+ 450=5+0 +8 453=3+1
    457=56+8 45C=3A+1 8+0 43+6 476=74+F 5+ 4C1=16+6 36+ 4D0=10+ 30+ 10+8 30+ 4D6=15+6 35+ 4DA=D8+8
    9+ 16+ 36+ 17+ 37+ 4E2=18+4 38+ 18+8 38+ 1E+ 3E+ 4EA=E8+ 9+ 2D+ 4D+ 23+4 43+ 23+8 43+ 23+B 43+
    27+8 47+ 4F8=2B+ 4B+ 622=627+653 +4 48+ 27+5 4A+4 6C0=D5+ 6C2=C1+ 6D3=D2+ 929=928+93C 931=30+
    934=3+ 958=15+ 6+ 7+ C+ 21+ 2+ B+ F+ 9CB=C7+BE +D7 9DC=A1+BC 2+ 9DF=F+ A33=A32+A3C A36=8+
    A59=16+ 7+ C+ A5E=2B+ B48=B47+B56 B4B=+3E +57 B5C=21+3C 2+ B94=92+D7 BCA=C6+BE 7+ 6+D7
    C48=C46+C56 CC0=BF+D5 CC7=C6+ +6 CCA=+C2 ++CD5 D4A=D46+D3E 7+ 6+57 DDA=D9+CA DDC=+F ++DCA +DF
    F43=F42+FB7 F4D=C+ F52=51+ F57=6+ F5C=B+ F69=40+5 F73=71+72 F75=+4 B2+80 F78=3+ F81=71+
    F93=92+B7 F9D=C+ FA2=A1+ FA7=6+ FAC=B+ FB9=90+5 1026=1025+102E 1B06=B05+B35 1B08=7+ 1B0A=9+
    1B0C=B+ 1B0E=D+ 1B12=11+ 1B3B=3A+ 1B3D=C+ 1B40=E+ F+ 1B43=42+"

/-- Decompositions in the extended Latin and Greek blocks. -/
def extendedDecompositions : Array (Nat × List Nat) :=
  readDecompositions "1E00=41+325 61+ 42+07 62+ 42+23 62+ 42+31 62+ 43+27+301 63++ 44+07 64+ 44+23
    64+ 44+31 64+ 44+27 64+ 44+D 64+ 45+04+300 65++ 45++1 65++ 45+2D 65+ 45+30 65+ 45+27+306 65++
    46+07 66+ 47+4 67+ 48+7 68+ 48+23 68+ 48+08 68+ 48+27 68+ 48+E 68+ 49+30 69+ 49+08+301 69++ 4B+1
    6B+ 4B+23 6B+ 4B+31 6B+ 4C+23 6C+ 4C++304 6C++ 4C+31 6C+ 4C+2D 6C+ 4D+01 6D+ 4D+7 6D+ 4D+23 6D+
    4E+07 6E+ 4E+23 6E+ 4E+31 6E+ 4E+2D 6E+ 4F+03+301 6F++ 4F++8 6F++ 4F+4+0 6F++ 4F++1 6F++ 50+1
    70+ 50+7 70+ 52+ 72+ 52+23 72+ 52++304 72++ 52+31 72+ 53+07 73+ 53+23 73+ 53+01+307 73++ 53+C+
    73++ 53+23+ 73++ 54+07 74+ 54+23 74+ 54+31 74+ 54+2D 74+ 55+4 75+ 55+30 75+ 55+2D 75+ 55+03+301
    75++ 55+4+8 75++ 56+3 76+ 56+23 76+ 57+00 77+ 57+1 77+ 57+8 77+ 57+7 77+ 57+23 77+ 58+07 78+
    58+8 78+ 59+7 79+ 5A+2 7A+ 5A+23 7A+ 5A+31 7A+ 68+ 74+08 7+A 9+ 1E9B=17F+7 1EA0=041+23 61+ 41+09
    61+ 41+2+301 61++ 41++0 61++ 41++9 61++ 41++3 61++ 41+23+2 61++ 41+06+1 61++ 41++0 61++ 41++9
    61++ 41++3 61++ 41+23+6 61++ 45+ 65+ 45+09 65+ 45+3 65+ 45+2+301 65++ 45++0 65++ 45++9 65++
    45++3 65++ 45+23+2 65++ 49+09 69+ 49+23 69+ 4F+ 6F+ 4F+09 6F+ 4F+2+301 6F++ 4F++0 6F++ 4F++9
    6F++ 4F++3 6F++ 4F+23+2 6F++ 4F+1B+1 6F++ 4F++0 6F++ 4F++9 6F++ 4F++3 6F++ 4F++23 6F++ 55+23 75+
    55+09 75+ 55+1B+301 75++ 55++0 75++ 55++9 75++ 55++3 75++ 55++23 75++ 59+00 79+ 59+23 79+ 59+09
    79+ 59+3 79+ 1F00=3B1+13 +4 +3+300 +4+ +3+1 +4+ +3+42 +4+ 91+3 +4 +3+300 +4+ +3+1 +4+ +3+42 +4+
    B5+3 +4 +3+300 +4+ +3+1 +4+ 1F18=95+3 +4 +3+300 +4+ +3+1 +4+ 1F20=B7+3 +4 +3+300 +4+ +3+1 +4+
    +3+42 +4+ 97+3 +4 +3+300 +4+ +3+1 +4+ +3+42 +4+ B9+3 +4 +3+300 +4+ +3+1 +4+ +3+42 +4+ 99+3 +4
    +3+300 +4+ +3+1 +4+ +3+42 +4+ BF+3 +4 +3+300 +4+ +3+1 +4+ 1F48=9F+3 +4 +3+300 +4+ +3+1 +4+
    1F50=C5+3 +4 +3+300 +4+ +3+1 +4+ +3+42 +4+ 1F59=A5+ 1F5B=++300 1F5D=++1 1F5F=++42 C9+3 +4 +3+300
    +4+ +3+1 +4+ +3+42 +4+ A9+3 +4 +3+300 +4+ +3+1 +4+ +3+42 +4+ B1+00 +1 5+0 +1 7+0 +1 9+0 +1 F+0
    +1 C5+0 +1 9+0 +1 1F80=B1+13+345 +4+ +3+00+345 +4++ +3+1+ +4++ +3+42+ +4++ 91+3+5 +4+ +3+00+345
    +4++ +3+1+ +4++ +3+42+ +4++ B7+3+5 +4+ +3+00+345 +4++ +3+1+ +4++ +3+42+ +4++ 97+3+5 +4+
    +3+00+345 +4++ +3+1+ +4++ +3+42+ +4++ C9+3+5 +4+ +3+00+345 +4++ +3+1+ +4++ +3+42+ +4++ A9+3+5
    +4+ +3+00+345 +4++ +3+1+ +4++ +3+42+ +4++ B1+06 +4 +0+345 +45 +01+345 1FB6=+42 ++345 91+06 +4 +0
    +1 +45 1FBE=B9 1FC1=0A8+342 3B7+00+345 +45 +01+345 1FC6=+42 ++345 95+00 +1 7+0 +1 +45 1FBF+00 +1
    +42 03B9+06 +4 +8+300 ++1 1FD6=+42 +08+342 99+6 +4 +0 +1 1FDD=1FFE+0 +1 +42 03C5+06 +4 +8+300
    ++1 1+13 +4 5+42 +08+342 A5+6 +4 +0 +1 1+14 0A8+00 +1 60 1FF2=3C9+300+345 +45 +01+345 1FF6=+42
    ++345 9F+00 +1 A9+0 +1 +45 0B4"

/-- Decompositions of symbols and of syllables of East Asia. -/
def symbolDecompositions : Array (Nat × List Nat) :=
  readDecompositions "2000=2002 3 2126=03A9 212A=04B 1+30A 219A=2190+38 2+ 21AE=4+ 21CD=D0+ 4+ 2+
    2204=203+ 2209=8+ 220C=B+ 2224=23+ 2226=5+ 2241=3C+ 2244=43+ 2247=5+ 2249=8+ 2260=003D+
    2262=2261+ 226D=4D+ 003C+ E+ 2264+ 5+ 2274=72+ 3+ 2278=6+ 7+ 2280=A+ B+ 2284=82+ 3+ 2288=6+ 7+
    22AC=A2+ 8+ 9+ B+ 22E0=7C+ D+ 91+ 2+ 22EA=B2+ 3+ 4+ 5+ 2329=3008 9 2ADC=2ADD+338 304C=304B+3099
    304E=D+ 3050=F+ 3052=51+ 3054=3+ 3056=5+ 3058=7+ 305A=9+ 305C=B+ 305E=D+ 3060=F+ 3062=61+
    3065=4+ 3067=6+ 3069=8+ 3070=F+ +A 3073=72+9 +A 3076=5+9 +A 3079=8+9 +A 307C=B+9 +A 3094=46+9
    309E=9D+ 30AC=AB+ 30AE=D+ 30B0=F+ 30B2=B1+ 30B4=3+ 30B6=5+ 30B8=7+ 30BA=9+ 30BC=B+ 30BE=D+
    30C0=F+ 30C2=C1+ 30C5=4+ 30C7=6+ 30C9=8+ 30D0=F+ +A 30D3=D2+9 +A 30D6=5+9 +A 30D9=8+9 +A
    30DC=B+9 +A 30F4=A6+9 30F7=EF+ F0+ 1+ 2+ 30FE=D+"

/-- Decompositions of compatibility ideographs. -/
def ideographDecompositions : Array (Nat × List Nat) :=
  readDecompositions "F900=8C48 66F4 8ECA CC8 6ED1 4E32 53E5 9F9C C 5951 91D1 5587 948 61F6 7669 F85
    863F 7BA 8F8 908F 6A02 D1B 70D9 3DE 843D 916A 9F1 4E82 5375 6B04 721B 862D 9E1E 5D50 6FEB 85CD
    964 62C9 81D8 81F 5ECA 6717 D6A 72FC 90CE 4F86 51B7 2DE 64C4 AD3 7210 6E7 8001 606 5C DEF 9732
    B6F DFA 788C 97F DA0 83C9 9304 E7F 8AD6 58DF F04 7C60 807E 7262 8CA 8CC2 96F7 58D8 C62 6A13 DDA
    F0F 7D2F E37 964B 52D2 808B 51DC CC 7A1C DBE 83F1 9675 8B80 62CF A02 8AFE 4E39 5BE7 6012 7387
    570 5317 78FB 4FBF 5FA9 4E0D 6CCC 578 7D22 53C3 85E 7701 8449 AAA 6BBA 8FB0 6C88 2FE 82E5 63A0
    7565 4EAE 5169 C9 6881 7CE7 826F AD2 91CF 52F5 442 973 EEC 65C5 FFE 792A 95AD A6A E97 CE 529B
    66C6 B77 8F62 5E74 6190 200 49A F23 7149 489 9CA DF4 806F F26 4EE 9023 34A 5217 A3 4BD 70C8 88C2
    AAA 5EC9 FF5 637B BAE 7C3E 375 4EE4 56F9 BE7 DBA 601C 73B2 469 F9A 8046 9234 6F6 748 818 4F8B
    79AE 91B4 6B8 60E1 4E86 50DA BEE C3F 6599 A02 71CE 642 84FC 907C F8D 6688 962E 5289 677B F3 D41
    E9C 7409 559 86B D10 985E 516D 622E 9678 502B D19 6DEA 8F2A 5F8B 6144 817 7387 9686 5229 40F C65
    6613 74E 8A8 CE5 7406 5E2 F79 88CF E1 91CC 6E2 533F 6EBA 541D 71D0 498 85FA 96A3 C57 E9F 6797
    DCB 81E8 7ACB B20 C92 2C0 099 8B58 4EC0 8336 523A 07 EA6 62D3 7CD6 5B85 6D1E 6B4 8F3B 84C 964D
    898B 5ED3 140 5C0 FA10=85A FA12=6674 FA15=51DE 732A 6CA 93C 5E 65 8F 9756 7CBE FBD FA20=8612
    FA22=AF8 FA25=9038 FD FA2A=8EF FC 928 DB4 0DE 6B7 4FAE 50E7 14D 2C9 E4 351 59D 606 68 840 A8 C64
    E 6094 168 8E F2 54F E2 691 885 D77 E1A F22 716E 22B 422 891 93E 49 8 50 6 D 8D E A40 81 BC0 DF4
    E09 41 F72 8005 1ED 279 9 457 910 96 B01 39 CD3 D08 FB6 9038 6E3 7FF 83B 6075 242EE 08218
    FA70=4E26 51B5 68 4F80 5145 80 2C7 FA 59D 55 99 E2 85A B3 944 54 A62 B28 ED2 9 F69 AD 60D8 14E
    08 8E 60 F2 234 3C4 41C 52 556 674 717 B 56 B79 BA D41 EDB CB F22 701E 16E 7A7 235 AF 32A 471
    506 3B 61D F CA DB F4 74A 0 8CC AB1 BC0 C7B D5B F4 F3E 8005 352 EF 779 941 86 96 ABF F8 CB B01
    AFE ED B39 8A D08 F38 9072 199 276 67C E3 756 DB FF 80B 3B B12 F9C 2284A 4 33D5 03B9D 4018 39
    25249 CD0 7ED3 09F43 8E"

/-- Decompositions of presentation forms and of the supplementary scripts. -/
def formDecompositions : Array (Nat × List Nat) :=
  readDecompositions "FB1D=5D9+5B4 FB1F=F2+7 FB2A=E9+C1 +2 +BC+5C1 ++2 D0+7 +8 +C 1+ 2+ 3+ 4+ 5+ 6+
    FB38=8+ 9+ A+ B+ C+ FB3E=E+ FB40=E0+ 1+ FB43=3+ 4+ FB46=6+ 7+ 8+ 9+ A+ D5+9 1+F B+ E4+
    1109A=11099+110BA 1109C=B+ 110AB=A5+ 1112E=131+127 2+ 1134B=347+33E +57 114BB=4B9+4BA +0
    114BE=+D 115BA=5B8+5AF 9+ 11938=935+930 1D15E=D157+D165 8+ ++1D16E ++F ++70 ++1 ++2 1D1BB=B9+ A+
    9++1D16E A++ 9++F A++"

def supplementDecompositions : Array (Nat × List Nat) :=
  readDecompositions "2F800=4E3D 8 41 20122 04F60 AE BB 5002 7A 99 E7 CF 349E 2063A 0514D 54 64 77
    2051C 034B9 5167 8D 2054B 05197 A4 4ECC 51AC B5 291DF 051F5 203 34DF 523B 46 72 7 3515 52C7 9 E4
    FA 305 6 17 49 51 A 73 D F F F 20A2C 07070 53CA DF 20B63 053EB F1 406 9E 38 48 68 A2 F6 510 53
    63 84 4 99 AB B3 C2 716 606 717 651 74 207 8EE 7CE F4 80D 78B 832 1 AC 214E4 058F2 7 906 1A 22
    62 216A8 EA 059EC A1B 27 9D8 A66 36EE FC 5B08 3E E 219C8 05BC3 D8 E7 F3 21B18 05BFF C06 F53 C22
    3781 5C60 E C0 8D 21DE4 05D43 21DE6 05D6E B 7C E1 2 382F 5DFD E28 3D 69 3862 22183 0387C 5EB0 3
    6 CA 2A392 05EFE 22331 1 08201 5F22 2 38C7 232B8 61DA 05F62 B 38E3 5F9A CD D7 F9 6081 393A 1C
    6094 226D4 060C7 148 C E C 7A 8E B2 A4 F DE F2 6 210 B 5D B1 D4 350 22B0C 0633D 2FC 368 83 E4
    22BF1 06422 3C5 A9 3A2E 6469 7E 9D 77 3A6C 654F 6C 2300A 065E3 6F8 49 3B19 6691 3B08 AE4 5192 5
    6700 69C 80AD 43D9 6717 B 21 5E 3 233C3 03B49 67FA 85 852 85 2346D 0688E 1F 914 3B9D 6942 A3 EA
    AA8 236A3 06ADB 3C18 6B21 238A7 06B54 3C4E 6B72 9F BA B 23A8D 1D0B 3AFA 06C4E 23CBC 06CBF CD 67
    D16 3E 77 41 69 78 85 23D1E 06D34 E2F 6E 3D33 6ECB 7 23ED1 06DF9 F6E 23F5E 8E 06FC6 7039 1E B
    3D96 704A 7D 7 AD 20525 07145 24263 0719C 243AB 07228 35 50 24608 07280 95 24735 814 0737A 8B
    3EAC 73A5 3EB8 8 7447 5C 71 85 CA 3F1B 7524 24C36 0753E 24C92 07570 2219F 07610 24FA1 B8 5044
    03FFC 4008 76F4 250F3 2 119 33 0771E F F 4A 4039 778B 4046 96 2541D 0784E 8C CC 40E3 25626 07956
    2569A C5 0798F EB 412F 7A40 A F 2597C AA7 7 07AEE 4202 25BAB 07BC6 9 4227 25C80 07CD2 42A0 7CE8
    3 D00 25F86 07D63 4301 7DC7 E02 45 4334 26228 47 04359 262D9 07F7A 2633E 07F95 FA 8005 264DA 523
    08060 265A8 08070 2335F 043D5 80B2 103 440B 813E 5AB5 267A7 B5 3393 C 08201 4 F9E 446B 8291 8B
    9D 52B3 82B1 3 D E6 26B3C 082E5 31D 63 AD 23 BD E7 457 353 CA C DC 26C36 D6B CD5 0452B 84F1 3
    516 273CA 08564 26F2C 0455D 61 26FB1 70D2 0456B 8650 C 67 9 A9 88 70E 6E2 779 28 6B 86 45D7 87E1
    801 45F9 8860 3 27667 088D7 E 4635 88FA 34BB 278AE 966 046BE C7 8AA0 ED B8A C55 27CA8 08CAB C1
    D1B 77 27F2F 0804 08DCB BC F0 208DE 08ED4 F38 285D2 ED 09094 F1 111 2872E 0911B 238 D7 8 7C 3F9
    415 28BFA 0958B 4995 95B7 28D77 049E6 96C3 5DB2 9723 29145 21A 04A6E 76 97E0 2940A 04AB2 29496
    0980B B 29 295B6 098E2 4B33 9929 A7 C2 FE 4BCE 29B30 09B12 C40 FD 4CCE ED 9D67 2A0CE 04CF8 2A105
    20E 91 09EBB 4D56 9EF9 E F05 F 16 3B 2A600"

/-- Code points with their full canonical decompositions, in increasing order. -/
def decompositions : Array (Nat × List Nat) :=
  scriptDecompositions ++ extendedDecompositions ++ symbolDecompositions ++
    ideographDecompositions ++ formDecompositions ++ supplementDecompositions

end Netlist.Text
