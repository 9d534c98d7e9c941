/-!
# The prelude

The library of sounds that a program can be run with: pairs and lists, sounds as pairs of a wave
and a duration, basic waves, ways to put sounds together, instruments, and a few tunes. It is
written in the language of the programs themselves and is put in front of them.
-/

namespace Waveform

namespace Prelude

def text : String := "function pair(x, xs) \x7b
  return [x, xs];
\x7d

function head(xs) \x7b
  return xs[0];
\x7d

function tail(xs) \x7b
  return xs[1];
\x7d

function is_null(xs) \x7b
  return xs === null;
\x7d

function accumulate(op, initial, sequence) \x7b
  if (is_null(sequence)) \x7b
    return initial;
  \x7d else \x7b
    return op(head(sequence), accumulate(op, initial, tail(sequence)));
  \x7d
\x7d

function get_wave(sound) \x7b
  return head(sound);
\x7d

function get_duration(sound) \x7b
  return tail(sound);
\x7d

function make_sound(wave, duration) \x7b
  return pair(t => t >= duration ? 0 : wave(t), duration);
\x7d

function silence_sound(duration) \x7b
  return make_sound(t => 0, duration);
\x7d

function noise_sound(duration) \x7b
  return make_sound(t => math_random() * 2 - 1, duration);
\x7d

function sine_sound(freq, duration) \x7b
  return make_sound(t => math_sin(2 * math_PI * t * freq), duration);
\x7d

const fourier_expansion_level = 5;

function square_sound(freq, duration) \x7b
  function fourier_expansion_square(t) \x7b
    let answer = 0;
    for (let i = 1; i <= fourier_expansion_level; i = i + 1) \x7b
      answer = answer + math_sin(2 * math_PI * (2 * i - 1) * freq * t) / (2 * i - 1);
    \x7d
    return answer;
  \x7d
  return make_sound(t => (4 / math_PI) * fourier_expansion_square(t), duration);
\x7d

function triangle_sound(freq, duration) \x7b
  function fourier_expansion_triangle(t) \x7b
      let answer = 0;
      for (let i = 0; i < fourier_expansion_level; i = i + 1) \x7b
          answer = answer + math_pow(-1, i) * math_sin((2 * i + 1) * t * freq * math_PI * 2) / math_pow((2 * i + 1), 2);
      \x7d
      return answer;
  \x7d
  return make_sound(t =>
      (8 / math_PI / math_PI) * fourier_expansion_triangle(t),
      duration);
\x7d

function sawtooth_sound(freq, duration) \x7b
  function fourier_expansion_sawtooth(t) \x7b
      let answer = 0;
      for (let i = 1; i <= fourier_expansion_level; i = i + 1) \x7b
          answer = answer + math_sin(2 * math_PI * i * freq * t) / i;
      \x7d
      return answer;
  \x7d
  return make_sound(t =>
                    (1 / 2) - (1 / math_PI) * fourier_expansion_sawtooth(t),
                    duration);
\x7d

function linear_decay(decay_period) \x7b
  return t => \x7b
      if ((t > decay_period) || (t < 0)) \x7b
          return 0;
      \x7d else \x7b
          return 1 - (t / decay_period);
      \x7d
  \x7d;
\x7d

function adsr(attack_ratio, decay_ratio, sustain_level, release_ratio) \x7b
  return sound => \x7b
      const wave = get_wave(sound);
      const duration = get_duration(sound);
      const attack_time = duration * attack_ratio;
      const decay_time = duration * decay_ratio;
      const release_time = duration * release_ratio;
      return make_sound( x => \x7b
          if (x < attack_time) \x7b
              return wave(x) * (x / attack_time);
          \x7d else if (x < attack_time + decay_time) \x7b
              return ((1 - sustain_level) *
                      (linear_decay(decay_time))(x - attack_time) + sustain_level) *
                       wave(x);
          \x7d else if (x < duration - release_time) \x7b
              return wave(x) * sustain_level;
          \x7d else if (x <= duration) \x7b
              return wave(x) * sustain_level *
                      (linear_decay(release_time))(x - (duration - release_time));
          \x7d else \x7b
              return 0;
          \x7d
      \x7d, duration);
  \x7d;
\x7d

function consecutively(list_of_sounds) \x7b
  function consec_two(ss1, ss2) \x7b
      const wave1 = head(ss1);
      const wave2 = head(ss2);
      const dur1 = tail(ss1);
      const dur2 = tail(ss2);
      const new_wave = t => t < dur1 ? wave1(t) : wave2(t - dur1);
      return pair(new_wave, dur1 + dur2);
  \x7d
  return accumulate(consec_two, silence_sound(0), list_of_sounds);
\x7d

function simultaneously(list_of_sounds) \x7b
  function musher(ss1, ss2) \x7b
      const wave1 = head(ss1);
      const wave2 = head(ss2);
      const dur1 = tail(ss1);
      const dur2 = tail(ss2);
      const new_wave = t => wave1(t) + wave2(t);
      const new_dur = dur1 < dur2 ? dur2 : dur1;
      return pair(new_wave, new_dur);
  \x7d

  const mushed_sounds = accumulate(musher, silence_sound(0), list_of_sounds);
  const normalised_wave = t => (head(mushed_sounds))(t) / length(list_of_sounds);
  const highest_duration = tail(mushed_sounds);
  return pair(normalised_wave, highest_duration);
\x7d

function midi_note_to_frequency(note) \x7b
  return 440 * math_pow(2, (note - 69) / 12);
\x7d

function stacking_adsr(waveform, base_frequency, duration, envelopes) \x7b
  function zip(lst, n) \x7b
    if (is_null(lst)) \x7b
      return lst;
    \x7d else \x7b
      return pair(pair(n, head(lst)), zip(tail(lst), n + 1));
    \x7d
  \x7d

  return simultaneously(
    accumulate(
      (x, y) => pair(tail(x)(waveform(base_frequency * head(x), duration)), y),
      null,
      zip(envelopes, 1)
    )
  );
\x7d

function trombone(note, duration) \x7b
  return stacking_adsr(
    square_sound,
    midi_note_to_frequency(note),
    duration,
    list(adsr(0.2, 0, 1, 0.1), adsr(0.3236, 0.6, 0, 0.1))
  );
\x7d

function piano(note, duration) \x7b
  return stacking_adsr(
    triangle_sound,
    midi_note_to_frequency(note),
    duration,
    list(adsr(0, 0.515, 0, 0.05), adsr(0, 0.32, 0, 0.05), adsr(0, 0.2, 0, 0.05))
  );
\x7d

function bell(note, duration) \x7b
  return stacking_adsr(
    square_sound,
    midi_note_to_frequency(note),
    duration,
    list(
      adsr(0, 0.6, 0, 0.05),
      adsr(0, 0.6618, 0, 0.05),
      adsr(0, 0.7618, 0, 0.05),
      adsr(0, 0.9071, 0, 0.05)
    )
  );
\x7d

function violin(note, duration) \x7b
  return stacking_adsr(
    sawtooth_sound,
    midi_note_to_frequency(note),
    duration,
    list(
      adsr(0.35, 0, 1, 0.15),
      adsr(0.35, 0, 1, 0.15),
      adsr(0.45, 0, 1, 0.15),
      adsr(0.45, 0, 1, 0.15)
    )
  );
\x7d

function cello(note, duration) \x7b
  return stacking_adsr(
    square_sound,
    midi_note_to_frequency(note),
    duration,
    list(adsr(0.05, 0, 1, 0.1), adsr(0.05, 0, 1, 0.15), adsr(0, 0, 0.2, 0.15))
  );
\x7d

function chords1() \x7b
  const c = consecutively;
  const s = simultaneously;

  const zero = silence_sound;
  const s1 = bell;
  const s2 = cello;
  const s3 = bell;
  const s4 = trombone;

  const snd = c(
    list(
      s(list(s1(58, 0.5), s1(62, 0.5))),
      s1(53, 0.5),
      s1(58, 0.5),
      s1(62, 0.5),
      s(list(s1(79, 1), c(list(s1(67, 0.5), s1(53, 0.5))))),
      s(list(s1(77, 1), c(list(s1(65, 0.5), s1(53, 0.5)))))
    )
  );

  return snd;
\x7d

function chords2() \x7b
  const c = consecutively;
  const s = simultaneously;

  const zero = silence_sound;
  const s1 = bell;
  const s2 = cello;
  const s3 = bell;
  const s4 = trombone;

  return c(
    list(
      s(list(s1(58, 0.5), s1(62, 0.5))),
      s1(55, 0.5),
      s1(58, 0.5),
      s1(62, 0.5),
      s(list(s1(81, 1), c(list(s1(69, 0.5), s1(55, 0.5))))),
      s(list(s1(79, 1), c(list(s1(67, 0.5), s1(55, 0.5)))))
    )
  );
\x7d

function chords3() \x7b
  return consecutively(
    list(
      simultaneously(list(bell(60, 0.5), bell(63, 0.5))),
      bell(60, 0.5),
      bell(63, 0.5),
      bell(67, 0.5),
      simultaneously(
        list(bell(86, 1), consecutively(list(bell(74, 0.5), bell(60, 0.5))))
      ),
      simultaneously(
        list(bell(84, 1), consecutively(list(bell(72, 0.5), bell(60, 0.5))))
      )
    )
  );
\x7d

function chords4() \x7b
  return consecutively(
    list(
      simultaneously(list(bell(63, 0.5), bell(67, 0.5))),
      bell(60, 0.5),
      bell(63, 0.5),
      bell(67, 0.5),
      simultaneously(list(bell(60, 0.5), bell(63, 0.5), bell(69, 0.5))),
      bell(63, 0.5),
      bell(65, 0.5),
      bell(72, 0.5)
    )
  );
\x7d

function chords7() \x7b
  return consecutively(
    list(
      simultaneously(list(bell(63, 0.5), bell(67, 0.5))),
      bell(60, 0.5),
      bell(63, 0.5),
      bell(67, 0.5),
      simultaneously(list(bell(59, 0.5), bell(63, 0.5))),
      bell(67, 0.5),
      simultaneously(list(bell(58, 0.5), bell(63, 0.5))),
      bell(67, 0.5)
    )
  );
\x7d

function chords8() \x7b
  return consecutively(
    list(
      simultaneously(list(bell(57, 0.5), bell(63, 0.5))),
      bell(57, 0.5),
      bell(63, 0.5),
      bell(67, 0.5),
      simultaneously(list(bell(56, 0.5), bell(63, 0.5))),
      bell(67, 0.5),
      simultaneously(list(bell(55, 0.5), bell(63, 0.5))),
      bell(67, 0.5)
    )
  );
\x7d

function rhapsody() \x7b
  const c = consecutively;
  const s = simultaneously;

  const zero = silence_sound;
  const s1 = bell;
  const s2 = cello;
  const s3 = bell;
  const s4 = trombone;

  function helper(freq, dur) \x7b
    return s(
      list(
        s3(freq, dur / 2),
        s3(freq - 12, dur / 2),
        s4(freq, dur),
        s4(freq - 12, dur)
      )
    );
  \x7d

  const chords1 = c(
    list(
      s(list(s1(58, 0.5), s1(62, 0.5))),
      s1(53, 0.5),
      s1(58, 0.5),
      s1(62, 0.5),
      s(list(s1(79, 1), c(list(s1(67, 0.5), s1(53, 0.5))))),
      s(list(s1(77, 1), c(list(s1(65, 0.5), s1(53, 0.5)))))
    )
  );

  const chords2 = c(
    list(
      s(list(s1(58, 0.5), s1(62, 0.5))),
      s1(55, 0.5),
      s1(58, 0.5),
      s1(62, 0.5),
      s(list(s1(81, 1), c(list(s1(69, 0.5), s1(55, 0.5))))),
      s(list(s1(79, 1), c(list(s1(67, 0.5), s1(55, 0.5)))))
    )
  );

  const chords3 = c(
    list(
      s(list(s1(60, 0.5), s1(63, 0.5))),
      s1(60, 0.5),
      s1(63, 0.5),
      s1(67, 0.5),
      s(list(s1(86, 1), c(list(s1(74, 0.5), s1(60, 0.5))))),
      s(list(s1(84, 1), c(list(s1(72, 0.5), s1(60, 0.5)))))
    )
  );

  const chords4 = c(
    list(
      s(list(s1(63, 0.5), s1(67, 0.5))),
      s1(60, 0.5),
      s1(63, 0.5),
      s1(67, 0.5),
      s(list(s1(60, 0.5), s1(63, 0.5), s1(69, 0.5))),
      s1(63, 0.5),
      s1(65, 0.5),
      s1(72, 0.5)
    )
  );

  const chords5 = chords1;

  const chords6 = chords2;

  const chords7 = c(
    list(
      s(list(s1(63, 0.5), s1(67, 0.5))),
      s1(60, 0.5),
      s1(63, 0.5),
      s1(67, 0.5),
      s(list(s1(59, 0.5), s1(63, 0.5))),
      s1(67, 0.5),
      s(list(s1(58, 0.5), s1(63, 0.5))),
      s1(67, 0.5)
    )
  );

  const chords8 = c(
    list(
      s(list(s1(57, 0.5), s1(63, 0.5))),
      s1(57, 0.5),
      s1(63, 0.5),
      s1(67, 0.5),
      s(list(s1(56, 0.5), s1(63, 0.5))),
      s1(67, 0.5),
      s(list(s1(55, 0.5), s1(63, 0.5))),
      s1(67, 0.5)
    )
  );

  const vocals1 = c(
    list(
      zero(8),
      s2(62, 0.33),
      s2(62, 2.92),
      zero(0.25),
      s2(58, 0.5),
      s2(60, 0.5),
      s2(62, 0.25),
      s2(62, 2.25),
      zero(0.5),
      s2(62, 0.25),
      s2(62, 0.25),
      s2(63, 0.33),
      s2(65, 0.33),
      s2(63, 0.59),
      s2(62, 0.5),
      s2(60, 0.75),
      zero(0.5),
      s2(60, 0.5),
      s2(62, 0.5),
      s2(63, 0.25),
      s2(65, 0.5),
      s2(63, 0.5),
      s2(62, 0.5),
      s2(60, 1.25),
      zero(1)
    )
  );

  const vocals2 = c(
    list(
      s2(62, 0.33),
      s2(62, 2.42),
      zero(0.25),
      s2(62, 0.5),
      s2(65, 0.5),
      s2(69, 0.75),
      s2(67, 0.25),
      s2(67, 2),
      zero(0.5),
      s2(67, 0.5),
      s2(70, 0.5),
      s2(70, 0.5),
      s2(70, 0.5),
      s2(70, 0.5),
      s2(70, 0.75),
      s2(67, 0.25),
      s2(63, 0.67),
      s2(62, 0.33),
      s2(60, 3),
      zero(1)
    )
  );

  const BASS = c(
    list(
      helper(46, 4),
      helper(46, 4),
      helper(46, 4),
      helper(43, 4),
      helper(48, 4),
      helper(48, 2),
      helper(53, 2),
      helper(46, 4),
      helper(43, 4),
      helper(48, 2),
      helper(47, 1),
      helper(46, 1),
      helper(45, 2),
      helper(44, 1),
      helper(43, 1)
    )
  );

  const CHORDS = c(
    list(
      chords1,
      chords1,
      chords1,
      chords2,
      chords3,
      chords4,
      chords5,
      chords6,
      chords7,
      chords8
    )
  );

  const VOCALS = c(list(vocals1, vocals2));

  return s(list(VOCALS, BASS, CHORDS));
\x7d
"

def before (source : String) : String :=
  text ++ "\n" ++ source

end Prelude

end Waveform
